import TextureLoom.Atlas.Entry

set_option autoImplicit false

namespace TextureLoom.Atlas

/-- Texels row by row, each as its red, green, blue and alpha bytes. -/
structure Texture where
  width : Nat
  height : Nat
  bytes : ByteArray

namespace Texture

/-- The texture whose rows start `pitch` bytes apart. -/
def ofRows (width height pitch : Nat) (rows : ByteArray) : Texture where
  width := width
  height := height
  bytes := height.fold (fun y _ out => out ++ rows.extract (y * pitch) (y * pitch + width * 4)) ByteArray.empty

/-- The index below `length` nearest to `i - padding`. -/
def inner (padding length i : Nat) : Nat := min (i - padding) (length - 1)

/-- The bytes of the texture with its edge texels repeated around it. -/
def padded (t : Texture) (padding : Nat) : ByteArray :=
  (t.height + 2 * padding).fold (fun y _ out =>
    (t.width + 2 * padding).fold (fun x _ out =>
      Bytes.pushTexel t.bytes ((inner padding t.height y * t.width + inner padding t.width x) * 4) out) out)
    ByteArray.empty

end Texture

/-- Where an id stands. -/
inductive Status where
  /-- Never handed out. -/
  | unused
  | registered
  | pendingUpload
  | valid
  | tooLarge
  /-- Given back. -/
  | removed
deriving DecidableEq, Repr

/-- What an atlas knows of an id. -/
structure Slot where
  status : Status := .unused
  /-- Whether the last data was refused for its size; clearing the data does not change this. -/
  refused : Bool := false
  texture : Option Texture := none
  place : Option Placement := none
  /-- Whether the id was uploaded to its place. -/
  shown : Bool := false
  /-- Counts the data set, from one at registration. -/
  generation : Nat := 0
deriving Inhabited

namespace Slot

def isRegistered (s : Slot) : Bool := s.status != .unused && s.status != .removed

/-- A slot that was just handed out. -/
def fresh : Slot := { status := .registered, generation := 1 }

/-- The slot without its place. -/
def unplaced (s : Slot) : Slot := { s with place := none, shown := false }

/-- The slot with data to upload. -/
def loaded (s : Slot) (t : Texture) : Slot :=
  { s with status := .pendingUpload, refused := false, texture := some t, generation := s.generation + 1 }

/-- The slot without its data. -/
def cleared (s : Slot) : Slot := { s.unplaced with status := .registered, texture := none }

/-- The slot after data that is too large. -/
def rejected (s : Slot) : Slot := { s.unplaced with status := .tooLarge, refused := true, texture := none }

/-- The slot given back. -/
def discarded (s : Slot) : Slot := { s.cleared with status := .removed, refused := false }

/-- The slot uploaded to its place. -/
def uploaded (s : Slot) : Slot := { s with status := .valid, shown := true }

/-- The row of a slot without data. -/
def idleEntry (s : Slot) : Entry := if s.refused then .tooLarge else .blank

end Slot

end TextureLoom.Atlas
