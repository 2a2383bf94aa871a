import TextureLoom.Bytes
import TextureLoom.Atlas.Config

set_option autoImplicit false

namespace TextureLoom.Atlas

/-- A linear upload buffer: ranges are handed out in order and come back all at once. -/
structure Staging where
  bytes : ByteArray
  /-- The end of the last range handed out. -/
  used : Nat

namespace Staging

def create (size : Nat) : Except ConfigError Staging :=
  if size = 0 then .error .emptyStaging else .ok ⟨Bytes.zeros size, 0⟩

def size (s : Staging) : Nat := s.bytes.size

/-- A sum of 64-bit numbers, if it is one. -/
def sum64? (a b : Nat) : Option Nat := if a + b < 0x10000000000000000 then some (a + b) else none

/-- Start and end of the first range of `count` bytes behind those in use that starts at a multiple of `alignment`. -/
def nextRange? (s : Staging) (count alignment : Nat) : Option (Nat × Nat) := do
  let alignment := max alignment 1
  let start := (← sum64? s.used (alignment - 1)) / alignment * alignment
  let stop ← sum64? start count
  if s.size < stop then none else some (start, stop)

/-- The buffer with the bytes up to `stop` in use. -/
def use (s : Staging) (stop : Nat) : Staging := { s with used := stop }

/-- Hands out the next range, if it fits. -/
def allocate (s : Staging) (count alignment : Nat) : Option (Nat × Staging) :=
  (s.nextRange? count alignment).map fun (start, stop) => (start, s.use stop)

/-- Writes bytes into a range that was handed out. -/
def write (s : Staging) (offset : Nat) (data : ByteArray) : Staging :=
  { s with bytes := Bytes.blit data 0 s.bytes offset data.size }

/-- Whether the buffer has this range. -/
def hasRange (s : Staging) (offset count : Nat) : Bool := offset + count ≤ s.size

/-- The bytes of a range, if the buffer has it. -/
def read? (s : Staging) (offset count : Nat) : Option ByteArray :=
  if s.hasRange offset count then some (s.bytes.extract offset (offset + count)) else none

/-- Takes all ranges back. -/
def reset (s : Staging) : Staging := { s with used := 0 }

end Staging

end TextureLoom.Atlas
