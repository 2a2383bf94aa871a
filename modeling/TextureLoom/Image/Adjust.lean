import TextureLoom.Image.Basic

set_option autoImplicit false

namespace TextureLoom.Image

/-- Alpha scaled by a fraction of 255. -/
def fade (img : Image) (alpha : UInt32) : Image := img.map fun p => p.withAlpha (Pixel.scale p.alpha alpha)

/-- Full alpha everywhere. -/
def dropAlpha (img : Image) : Image := img.map (0xff000000 ||| ·)

/-- Pixels of one colour become transparent. -/
def keyColor (img : Image) (r g b : UInt32) : Image :=
  let key := Pixel.pack 0 r g b
  img.map fun p => if p &&& 0x00ffffff = key then key else p

/-- The bits of a pixel that belong to the channels in `channels`: red 1, green 2, blue 4, alpha 8. -/
def channelMask (channels : UInt8) : Pixel :=
  (if channels &&& 1 = 0 then 0 else 0x00ff0000) ||| (if channels &&& 2 = 0 then 0 else 0x0000ff00)
    ||| (if channels &&& 4 = 0 then 0 else 0x000000ff) ||| (if channels &&& 8 = 0 then 0 else 0xff000000)

/-- The listed channels reversed. -/
def invert (img : Image) (channels : UInt8) : Image :=
  let mask := channelMask channels
  img.map (· ^^^ mask)

/-- Colours moved a third of the way to white. -/
def brighten (img : Image) : Image := img.map (Pixel.mapColor fun c => c + (255 - c) / 3)

/-- The slope of the contrast curve for a level from -127 to 127. -/
def contrastFactor (level : Int) : Float :=
  let level := Float.ofInt (max (-127) (min level 127))
  (259 * (level + 255)) / (255 * (259 - level))

/-- A channel value on the contrast curve through mid grey, brightness added. -/
def contrastChannel (factor : Float) (brightness : Int) (c : UInt32) : UInt32 :=
  Pixel.clampChannel ((factor * (c.toFloat - 128) + 128).toInt32.toInt + brightness)

def contrast (img : Image) (level brightness : Int) : Image :=
  let factor := contrastFactor level
  img.map (Pixel.mapColor (contrastChannel factor brightness))

/-- Each colour channel scaled by that of `color`. -/
def multiply (img : Image) (color : Pixel) : Image := img.map (Pixel.zipColor Pixel.scale color)

/-- As `multiply`, on the distances to white. -/
def screen (img : Image) (color : Pixel) : Image :=
  img.map (Pixel.zipColor (fun c k => 255 - Pixel.scale (255 - c) (255 - k)) color)

/-- Colours moved toward `color` by a fraction of 255. -/
def colorize (img : Image) (color : Pixel) (ratio : UInt32) : Image :=
  img.map (Pixel.zipColor (fun c k => Pixel.unscale (c * (255 - ratio) + k * ratio)) color)

/-- Alpha scaled by that of `mask`. -/
def applyMask (img mask : Image) : Image :=
  img.zip (fun p m => p.withAlpha (Pixel.scale p.alpha m.alpha)) mask

end TextureLoom.Image
