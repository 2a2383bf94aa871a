import TextureLoom.Bytes

set_option autoImplicit false

namespace TextureLoom.Png

/-- The remainder register after one bit of a byte, lowest bit first. -/
def crcBit (register : UInt32) : UInt32 :=
  if register &&& 1 = 1 then (register >>> 1) ^^^ 0xedb88320 else register >>> 1

/-- The remainders of all bytes. -/
def crcTable : Array UInt32 :=
  Array.ofFn fun i : Fin 256 => (8).fold (fun _ _ register => crcBit register) i.val.toUInt32

def crcByte (register : UInt32) (b : UInt8) : UInt32 :=
  crcTable.getD (register.toUInt8 ^^^ b).toNat 0 ^^^ (register >>> 8)

/-- The cyclic redundancy check of a chunk. -/
def crc32 (bytes : ByteArray) : UInt32 := bytes.foldl crcByte 0xffffffff ^^^ 0xffffffff

/-- The two running sums of a stream, as one word. -/
def adler32 (bytes : ByteArray) : UInt32 :=
  let (a, b) := bytes.foldl (fun ((a, b) : UInt32 × UInt32) byte =>
    let a := (a + byte.toUInt32) % 65521
    (a, (b + a) % 65521)) (1, 0)
  (b <<< 16) ||| a

/-- A 32-bit number with its most significant byte first. -/
def bigEndian (value : UInt32) : List UInt8 := (Bytes.littleEndian value.toNat 4).reverse

/-- The 32-bit number at an offset, its most significant byte first. -/
def readWord (bytes : ByteArray) (offset : Nat) : Nat :=
  Bytes.ofLittleEndian [Bytes.byteAt bytes (offset + 3), Bytes.byteAt bytes (offset + 2),
    Bytes.byteAt bytes (offset + 1), Bytes.byteAt bytes offset]

end TextureLoom.Png
