set_option autoImplicit false

namespace TextureLoom.Fingerprint

/-- The 64-bit FNV-1a digest of no bytes. -/
def empty : UInt64 := 0xcbf29ce484222325

/-- The digest after one more byte. -/
def step (digest : UInt64) (b : UInt8) : UInt64 := (digest ^^^ b.toUInt64) * 0x100000001b3

/-- The digest of a run of bytes. -/
def ofArray (bytes : Array UInt8) : UInt64 := bytes.foldl step empty

/-- The digest of a run of bytes. -/
def ofBytes (bytes : ByteArray) : UInt64 := bytes.foldl step empty

end TextureLoom.Fingerprint
