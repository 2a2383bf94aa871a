set_option autoImplicit false

namespace TextureLoom.Bytes

/-- A run of zero bytes. -/
def zeros (count : Nat) : ByteArray :=
  if count = 0 then ByteArray.empty
  else
    let half := zeros (count / 2)
    if count % 2 = 0 then half ++ half else (half ++ half).push 0

/-- The byte at an index; there are zeros past the end. -/
def byteAt (bytes : ByteArray) (i : Nat) : UInt8 := if h : i < bytes.size then bytes[i] else 0

/-- `target` with the `count` bytes of `source` from `start` on written at `offset`, if both ranges exist. -/
def blit (source : ByteArray) (start : Nat) (target : ByteArray) (offset count : Nat) : ByteArray :=
  if start + count ≤ source.size ∧ offset + count ≤ target.size then
    source.copySlice start target offset count
  else target

/-- `bytes` with the four bytes of `source` from `start` on behind it. -/
def pushTexel (source : ByteArray) (start : Nat) (bytes : ByteArray) : ByteArray :=
  (((bytes.push (byteAt source start)).push (byteAt source (start + 1))).push
    (byteAt source (start + 2))).push (byteAt source (start + 3))

/-- The low bytes of a number, least significant first. -/
def littleEndian (value : Nat) : Nat → List UInt8
  | 0 => []
  | count + 1 => value.toUInt8 :: littleEndian (value / 256) count

/-- The number whose bytes, least significant first, these are. -/
def ofLittleEndian : List UInt8 → Nat
  | [] => 0
  | b :: rest => b.toNat + 256 * ofLittleEndian rest

/-- `bytes` with a three-byte number written at `offset`. -/
def write24 (bytes : Array UInt8) (offset value : Nat) : Array UInt8 :=
  ((bytes.setIfInBounds offset value.toUInt8).setIfInBounds (offset + 1)
    (value / 256).toUInt8).setIfInBounds (offset + 2) (value / 65536).toUInt8

/-- The three-byte number at `offset`; bytes past the end count as zero. -/
def read24 (bytes : Array UInt8) (offset : Nat) : Nat :=
  ofLittleEndian [bytes.getD offset 0, bytes.getD (offset + 1) 0, bytes.getD (offset + 2) 0]

end TextureLoom.Bytes
