import TextureLoom.Png.Decode

set_option autoImplicit false

namespace TextureLoom.Png

/-- Bytes of a stored block, at most. -/
def blockLimit : Nat := 65535

/-- A stored block of the bytes from `start` on. -/
def storedBlock (bytes : ByteArray) (start count : Nat) (out : ByteArray) : ByteArray :=
  let last : UInt8 := if start + count = bytes.size then 1 else 0
  let marked := (last :: (Bytes.littleEndian count 2 ++ Bytes.littleEndian (65535 - count) 2)).foldl ByteArray.push out
  marked ++ bytes.extract start (start + count)

/-- A stream of stored blocks. -/
def storedStream (bytes : ByteArray) : ByteArray :=
  let blocks := (bytes.size + blockLimit - 1) / blockLimit
  let body := blocks.fold (fun i _ out =>
    storedBlock bytes (i * blockLimit) (min blockLimit (bytes.size - i * blockLimit)) out)
    ((ByteArray.empty.push 0x78).push 0x01)
  (bigEndian (adler32 bytes)).foldl ByteArray.push body

/-- A chunk as it stands in a file. -/
def chunkBytes (name : String) (content out : ByteArray) : ByteArray :=
  let body := name.toUTF8 ++ content
  let sized := (bigEndian content.size.toUInt32).foldl ByteArray.push out
  (bigEndian (crc32 body)).foldl ByteArray.push (sized ++ body)

/-- The rows of a picture, each behind the mark of an unfiltered one. -/
def plainRows (img : Image) : ByteArray :=
  let bytes := Pixel.rgbaOfAll img.pixels
  let count := img.width * 4
  img.height.fold (fun y _ out => out.push 0 ++ bytes.extract (y * count) ((y + 1) * count)) ByteArray.empty

/-- A picture as the bytes of a file, four bytes a pixel. -/
def encode (img : Image) : ByteArray :=
  let header := (bigEndian img.width.toUInt32 ++ bigEndian img.height.toUInt32 ++ [8, 6, 0, 0, 0]).foldl ByteArray.push
    ByteArray.empty
  let start := signature.foldl ByteArray.push ByteArray.empty
  chunkBytes "IEND" ByteArray.empty
    (chunkBytes "IDAT" (storedStream (plainRows img)) (chunkBytes "IHDR" header start))

end TextureLoom.Png
