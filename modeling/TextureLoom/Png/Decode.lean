import TextureLoom.Image.Basic
import TextureLoom.Png.Checksum
import TextureLoom.Png.Inflate

set_option autoImplicit false

namespace TextureLoom.Png

/-- The eight bytes that a picture file starts with. -/
def signature : List UInt8 := [137, 80, 78, 71, 13, 10, 26, 10]

/-- What the samples of a pixel mean. -/
inductive ColorKind where
  | gray
  | rgb
  | palette
  | grayAlpha
  | rgba
deriving DecidableEq, Repr

namespace ColorKind

def ofCode? : Nat → Option ColorKind
  | 0 => some .gray
  | 2 => some .rgb
  | 3 => some .palette
  | 4 => some .grayAlpha
  | 6 => some .rgba
  | _ => none

def channels : ColorKind → Nat
  | .gray | .palette => 1
  | .grayAlpha => 2
  | .rgb => 3
  | .rgba => 4

/-- The bits that a sample may have. -/
def depths : ColorKind → List Nat
  | .gray => [1, 2, 4, 8, 16]
  | .palette => [1, 2, 4, 8]
  | _ => [8, 16]

end ColorKind

structure Header where
  width : Nat
  height : Nat
  depth : Nat
  kind : ColorKind
  interlaced : Bool
deriving DecidableEq, Repr

namespace Header

def bitsPerPixel (h : Header) : Nat := h.kind.channels * h.depth

/-- Bytes of a row of so many pixels. -/
def rowBytes (h : Header) (width : Nat) : Nat := (width * h.bitsPerPixel + 7) / 8

/-- Bytes between a byte and the one that predicts it. -/
def unit (h : Header) : Nat := max (h.bitsPerPixel / 8) 1

def ofBytes? (bytes : ByteArray) : Option Header := do
  let kind ← ColorKind.ofCode? (Bytes.byteAt bytes 9).toNat
  let h : Header := ⟨readWord bytes 0, readWord bytes 4, (Bytes.byteAt bytes 8).toNat, kind, Bytes.byteAt bytes 12 = 1⟩
  if bytes.size = 13 ∧ 0 < h.width ∧ 0 < h.height ∧ h.depth ∈ kind.depths ∧ Bytes.byteAt bytes 10 = 0
      ∧ Bytes.byteAt bytes 11 = 0 ∧ Bytes.byteAt bytes 12 ≤ 1 then some h
  else none

end Header

structure Chunk where
  name : List UInt8
  content : ByteArray

/-- The chunks from an offset up to the last one, each with its check. -/
def chunksFrom (bytes : ByteArray) (offset : Nat) : Option (List Chunk) :=
  if bytes.size < offset + 12 then none
  else
    let size := readWord bytes offset
    let stop := offset + 8 + size
    if bytes.size < stop + 4 then none
    else if (crc32 (bytes.extract (offset + 4) stop)).toNat ≠ readWord bytes stop then none
    else
      let name := (bytes.extract (offset + 4) (offset + 8)).toList
      let chunk : Chunk := ⟨name, bytes.extract (offset + 8) stop⟩
      if name = "IEND".toUTF8.toList then some [chunk]
      else (chunksFrom bytes (stop + 4)).map (chunk :: ·)
termination_by bytes.size - offset
decreasing_by omega

/-- The contents of all chunks of a name. -/
def contentsOf (chunks : List Chunk) (name : String) : List ByteArray :=
  (chunks.filter fun chunk => chunk.name = name.toUTF8.toList).map (·.content)

/-- A part of the pixels: from a first column and row on, every so many columns and rows. -/
structure Pass where
  left : Nat
  top : Nat
  across : Nat
  down : Nat
deriving DecidableEq, Repr

/-- The passes in which the pixels come. -/
def Header.passes (h : Header) : List Pass :=
  if h.interlaced then
    [⟨0, 0, 8, 8⟩, ⟨4, 0, 8, 8⟩, ⟨0, 4, 4, 8⟩, ⟨2, 0, 4, 4⟩, ⟨0, 2, 2, 4⟩, ⟨1, 0, 2, 2⟩, ⟨0, 1, 1, 2⟩]
  else [⟨0, 0, 1, 1⟩]

/-- Pixels of a length from a first one on, every `step`. -/
def spanCount (length first step : Nat) : Nat := (length - first + step - 1) / step

/-- The neighbour closest to left plus up less corner. -/
def paeth (left up corner : Nat) : Nat :=
  let distance := fun a b : Nat => (a - b) + (b - a)
  let toLeft := distance up corner
  let toUp := distance left corner
  let toCorner := distance (left + up) (2 * corner)
  if toLeft ≤ toUp ∧ toLeft ≤ toCorner then left else if toUp ≤ toCorner then up else corner

/-- What a byte is stored as the difference to. -/
def predict (filter : UInt8) (left up corner : UInt8) : UInt8 :=
  match filter with
  | 0 => 0
  | 1 => left
  | 2 => up
  | 3 => ((left.toNat + up.toNat) / 2).toUInt8
  | _ => (paeth left.toNat up.toNat corner.toNat).toUInt8

/-- The bytes of a row from those stored from `start` on, below the row `above`. -/
def restoreRow (filter : UInt8) (unit : Nat) (data : ByteArray) (start count : Nat) (above : ByteArray) : ByteArray :=
  count.fold (fun i _ row =>
    let left := if i < unit then 0 else Bytes.byteAt row (i - unit)
    let corner := if i < unit then 0 else Bytes.byteAt above (i - unit)
    row.push (Bytes.byteAt data (start + i) + predict filter left (Bytes.byteAt above i) corner)) ByteArray.empty

/-- Sample `i` of a row. -/
def sampleAt (depth : Nat) (row : ByteArray) (i : Nat) : Nat :=
  if depth = 16 then (Bytes.byteAt row (2 * i)).toNat * 256 + (Bytes.byteAt row (2 * i + 1)).toNat
  else
    let bit := i * depth
    (Bytes.byteAt row (bit / 8)).toNat / (1 <<< (8 - depth - bit % 8)) % (1 <<< depth)

/-- A sample in eight bits. -/
def toByte (depth value : Nat) : UInt8 :=
  if depth = 16 then ((value + 128) / 257).toUInt8 else (value * 255 / (1 <<< depth - 1)).toUInt8

/-- What is needed to turn samples into pixels. -/
structure Colors where
  header : Header
  palette : ByteArray
  /-- Opacities of palette colours, or the one colour that is transparent. -/
  transparency : Option ByteArray

/-- Whether the samples from index `first` on are the transparent colour. -/
def Colors.isTransparent (c : Colors) (row : ByteArray) (first count : Nat) : Bool :=
  match c.transparency with
  | none => false
  | some key => (List.range count).all fun i =>
      sampleAt c.header.depth row (first + i)
        == (Bytes.byteAt key (2 * i)).toNat * 256 + (Bytes.byteAt key (2 * i + 1)).toNat

/-- Pixel `i` of a row. -/
def Colors.pixelAt (c : Colors) (row : ByteArray) (i : Nat) : Pixel :=
  let depth := c.header.depth
  let first := i * c.header.kind.channels
  let value := fun k => toByte depth (sampleAt depth row (first + k))
  match c.header.kind with
  | .gray => .ofRgba (value 0) (value 0) (value 0) (if c.isTransparent row first 1 then 0 else 255)
  | .rgb => .ofRgba (value 0) (value 1) (value 2) (if c.isTransparent row first 3 then 0 else 255)
  | .grayAlpha => .ofRgba (value 0) (value 0) (value 0) (value 1)
  | .rgba => .ofRgba (value 0) (value 1) (value 2) (value 3)
  | .palette =>
    let index := sampleAt depth row first
    let opacity := match c.transparency with
      | some opacities => if index < opacities.size then Bytes.byteAt opacities index else 255
      | none => 255
    .ofRgba (Bytes.byteAt c.palette (3 * index)) (Bytes.byteAt c.palette (3 * index + 1))
      (Bytes.byteAt c.palette (3 * index + 2)) opacity

/-- Reading under way: where the next row starts, the row above it and the pixels so far. -/
structure Progress where
  offset : Nat
  above : ByteArray
  pixels : Array Pixel

/-- Row `y` of a pass, with `width` pixels. -/
def Colors.readRow (c : Colors) (data : ByteArray) (pass : Pass) (width : Nat) (progress : Progress) (y : Nat) :
    Option Progress :=
  let h := c.header
  let count := h.rowBytes width
  let filter := Bytes.byteAt data progress.offset
  if 4 < filter then none
  else
    let row := restoreRow filter h.unit data (progress.offset + 1) count progress.above
    let start := (pass.top + y * pass.down) * h.width + pass.left
    let pixels := width.fold (fun x _ (pixels : Array Pixel) =>
      pixels.setIfInBounds (start + x * pass.across) (c.pixelAt row x)) progress.pixels
    some ⟨progress.offset + count + 1, row, pixels⟩

/-- The pixels of one pass. -/
def Colors.readPass (c : Colors) (data : ByteArray) (progress : Progress) (pass : Pass) : Option Progress :=
  let width := spanCount c.header.width pass.left pass.across
  let height := spanCount c.header.height pass.top pass.down
  if width = 0 ∨ height = 0 then some progress
  else if data.size < progress.offset + height * (c.header.rowBytes width + 1) then none
  else (List.range height).foldlM (c.readRow data pass width) { progress with above := ByteArray.empty }

/-- The pixels of a file of these chunks. -/
def ofChunks? : List Chunk → Option Image
  | [] => none
  | first :: rest => do
    if first.name ≠ "IHDR".toUTF8.toList then none
    let h ← Header.ofBytes? first.content
    let palette := (contentsOf rest "PLTE").head?
    if h.kind = .palette ∧ palette.isNone then none
    let data ← inflate? ((contentsOf rest "IDAT").foldl (· ++ ·) ByteArray.empty)
    if data.size < h.height * (h.rowBytes h.width) then none
    let colors : Colors := ⟨h, palette.getD ByteArray.empty, (contentsOf rest "tRNS").head?⟩
    let progress ← h.passes.foldlM (colors.readPass data) ⟨0, .empty, Array.replicate (h.width * h.height) 0⟩
    pure ⟨h.width, h.height, progress.pixels⟩

/-- The picture in the bytes of a file. -/
def decode? (bytes : ByteArray) : Option Image :=
  if (bytes.extract 0 8).toList = signature then (chunksFrom bytes 8).bind ofChunks? else none

end TextureLoom.Png
