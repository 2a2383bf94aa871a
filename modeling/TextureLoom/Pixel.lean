import TextureLoom.Text.Numeral

set_option autoImplicit false

namespace TextureLoom

/-- A colour word: alpha, red, green and blue bytes from the top down, not premultiplied. -/
abbrev Pixel := UInt32

namespace Pixel

def alpha (p : Pixel) : UInt32 := p >>> 24
def red (p : Pixel) : UInt32 := (p >>> 16) &&& 255
def green (p : Pixel) : UInt32 := (p >>> 8) &&& 255
def blue (p : Pixel) : UInt32 := p &&& 255

/-- The word of four channels, each at most 255. -/
def pack (a r g b : UInt32) : Pixel := (a <<< 24) ||| (r <<< 16) ||| (g <<< 8) ||| b

/-- The pixel with each colour channel replaced, alpha kept. -/
def mapColor (f : UInt32 → UInt32) (p : Pixel) : Pixel :=
  pack p.alpha (f p.red) (f p.green) (f p.blue)

/-- As `mapColor`, with the matching channel of `key` beside each. -/
def zipColor (f : UInt32 → UInt32 → UInt32) (key p : Pixel) : Pixel :=
  pack p.alpha (f p.red key.red) (f p.green key.green) (f p.blue key.blue)

/-- The pixel with its alpha replaced. -/
def withAlpha (a : UInt32) (p : Pixel) : Pixel := pack a p.red p.green p.blue

/-- A sum scaled by 255, brought back to the nearest whole. -/
def unscale (v : UInt32) : UInt32 := (v + 127) / 255

/-- The product of two fractions of 255, to the nearest whole. -/
def scale (x y : UInt32) : UInt32 := unscale (x * y)

/-- The nearest channel value. -/
def clampChannel (v : Int) : UInt32 :=
  if v < 0 then 0 else if 255 < v then 255 else v.toNat.toUInt32

/-- One colour channel of `blendOver`: premultiply, add, divide by the resulting alpha. -/
def blendChannel (baseAlpha topAlpha outAlpha base top : UInt32) : UInt32 :=
  let premultiplied := scale top topAlpha + scale (scale base baseAlpha) (255 - topAlpha)
  min ((premultiplied * 255 + outAlpha / 2) / outAlpha) 255

/-- `top` laid on `base`. -/
def blendOver (base top : Pixel) : Pixel :=
  let outAlpha := top.alpha + scale base.alpha (255 - top.alpha)
  if outAlpha = 0 then 0
  else
    let channel := blendChannel base.alpha top.alpha outAlpha
    pack (min outAlpha 255) (channel base.red top.red) (channel base.green top.green)
      (channel base.blue top.blue)

/-- The value of `#RRGGBB` (opaque) or `#RRGGBBAA`. -/
def ofHexText? (text : String) : Option Pixel :=
  match text.toList with
  | '#' :: digits =>
    match digits.mapM Text.hexValue? with
    | none => none
    | some values =>
      let word := (values.foldl (fun acc d => acc * 16 + d) 0).toUInt32
      if values.length = 6 then some (0xff000000 ||| word)
      else if values.length = 8 then some ((word >>> 8) ||| (word <<< 24))
      else none
  | _ => none

/-- Red, green, blue and alpha, one byte each. -/
def rgbaBytes (p : Pixel) : List UInt8 :=
  [p.red.toUInt8, p.green.toUInt8, p.blue.toUInt8, p.alpha.toUInt8]

/-- The pixel of one group of bytes in `rgbaBytes` order. -/
def ofRgba (r g b a : UInt8) : Pixel := pack a.toUInt32 r.toUInt32 g.toUInt32 b.toUInt32

/-- The bytes of a run of pixels. -/
def rgbaOfAll (pixels : Array Pixel) : ByteArray :=
  pixels.foldl (fun out p =>
    (((out.push p.red.toUInt8).push p.green.toUInt8).push p.blue.toUInt8).push p.alpha.toUInt8)
    ByteArray.empty

end Pixel

end TextureLoom
