import TextureLoom.Bytes
import TextureLoom.Atlas.Config

set_option autoImplicit false

namespace TextureLoom.Atlas

/-- Where a texture lies in an atlas image, its padding included. -/
structure Placement where
  x : Nat
  y : Nat
  width : Nat
  height : Nat
  layer : Nat
deriving DecidableEq, Repr

/-- A row of the descriptor table. Coordinates are the bits of single-precision numbers. -/
structure Entry where
  uMin : UInt32 := 0
  vMin : UInt32 := 0
  uMax : UInt32 := 0
  vMax : UInt32 := 0
  layer : UInt32 := 0
  flags : UInt32 := 0
  pad0 : UInt32 := 0
  pad1 : UInt32 := 0
deriving DecidableEq, Repr, Inhabited

namespace Entry

/-- The row points at uploaded texels. -/
def validFlag : UInt32 := 1
/-- Data is set but not uploaded. -/
def pendingFlag : UInt32 := 2
/-- The last data was refused for its size. -/
def tooLargeFlag : UInt32 := 4

def isValid (e : Entry) : Bool := e.flags &&& validFlag != 0

/-- A row that points nowhere. -/
def blank : Entry := {}

def pending : Entry := { flags := pendingFlag }

def tooLarge : Entry := { flags := tooLargeFlag }

/-- The row of a whole layer. -/
def wholeLayer (layer : Nat) : Entry :=
  { uMax := Float32.toBits 1, vMax := Float32.toBits 1, layer := layer.toUInt32, flags := validFlag }

/-- The fraction of the side at which the first texel centre of a span lies. -/
def lowEdge (start side : Nat) : UInt32 := ((Float32.ofNat start + 0.5) / Float32.ofNat side).toBits

/-- The fraction of the side at which the last texel centre of a span lies. -/
def highEdge (start length side : Nat) : UInt32 :=
  ((Float32.ofNat start + Float32.ofNat length - 0.5) / Float32.ofNat side).toBits

/-- The row of a texture placed in an atlas of this side. -/
def ofPlacement (p : Placement) (side : Nat) : Entry where
  uMin := lowEdge p.x side
  vMin := lowEdge p.y side
  uMax := highEdge p.x p.width side
  vMax := highEdge p.y p.height side
  layer := p.layer.toUInt32
  flags := validFlag

/-- The eight words of a row in order. -/
def words (e : Entry) : List UInt32 := [e.uMin, e.vMin, e.uMax, e.vMax, e.layer, e.flags, e.pad0, e.pad1]

/-- The row as the device holds it. -/
def toBytes (e : Entry) : List UInt8 := e.words.flatMap fun w => Bytes.littleEndian w.toNat 4

/-- The word at an index of a row that starts at `start`. -/
def wordAt (bytes : ByteArray) (start index : Nat) : UInt32 :=
  let i := start + 4 * index
  (Bytes.ofLittleEndian [Bytes.byteAt bytes i, Bytes.byteAt bytes (i + 1), Bytes.byteAt bytes (i + 2),
    Bytes.byteAt bytes (i + 3)]).toUInt32

/-- The row that starts at an offset. -/
def readAt (bytes : ByteArray) (start : Nat) : Entry :=
  let word := wordAt bytes start
  ⟨word 0, word 1, word 2, word 3, word 4, word 5, word 6, word 7⟩

/-- The rows of a buffer, bytes behind the last whole one left out. -/
def readAll (bytes : ByteArray) : List Entry :=
  (List.range (bytes.size / entryBytes)).map fun i => readAt bytes (i * entryBytes)

/-- The rows of a table one behind the other. -/
def tableBytes (entries : Array Entry) : ByteArray :=
  entries.foldl (fun out e => e.toBytes.foldl ByteArray.push out) ByteArray.empty

end Entry

end TextureLoom.Atlas
