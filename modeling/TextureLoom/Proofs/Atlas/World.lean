import TextureLoom.Atlas.Data
import TextureLoom.Atlas.Flush
import TextureLoom.Proofs.Atlas.Padding

set_option autoImplicit false

namespace TextureLoom.Atlas

open Bytes

/-- Pixels as they are set for an id. -/
structure PixelBuffer where
  width : Nat
  height : Nat
  /-- Bytes from one row to the next, or zero for rows without gaps. -/
  pitch : Nat
  bytes : ByteArray

namespace PixelBuffer

def rowPitch (b : PixelBuffer) : Nat := if b.pitch = 0 then b.width * 4 else b.pitch

/-- The bytes of a texel of the buffer with its edge repeated around it. -/
def paddedTexel (b : PixelBuffer) (padding x y : Nat) : List UInt8 :=
  texelAt b.bytes (Texture.inner padding b.height y * b.rowPitch + Texture.inner padding b.width x * 4)

end PixelBuffer

/-- The id has a place for its buffer with the padding, and there the image of the atlas holds it. -/
def Shows (d : Device) (a : Atlas) (accepted : Nat → Option PixelBuffer) (id : Nat) : Prop :=
  ∃ buffer place, accepted id = some buffer ∧ a.placement? id = some place ∧
    place.width = buffer.width + 2 * a.config.padding ∧ place.height = buffer.height + 2 * a.config.padding ∧
    ∀ i < place.width, ∀ j < place.height,
      d.texel? a.descriptor.image.handle place.layer (place.x + i) (place.y + j) =
        some (buffer.paddedTexel a.config.padding i j)

/-- The list that a flush recorded, with what the atlas was right behind the flush. -/
structure Submission where
  number : Nat
  after : Atlas
  accepted : Nat → Option PixelBuffer
  commands : List Command

/-- A call on an atlas, or something done to its device or staging buffer. -/
inductive Action where
  | register
  | set (id width height pitch : Nat) (bytes : ByteArray)
  | clear (id : Nat)
  | remove (id : Nat)
  | requestLayers (count : Nat)
  | requestRepack (mode : RepackMode)
  | flush
  /-- The oldest list that waits is submitted. -/
  | submit
  /-- The device has finished all that was submitted. -/
  | finish
  | limitMemory (limit : Option Nat)
  /-- Another user of the staging buffer takes a range and writes to it. -/
  | reserve (count alignment : Nat) (bytes : ByteArray)

/-- Whether a call is about the data of an id. -/
def Action.Names (id : Nat) : Action → Prop
  | .set named _ _ _ _ | .clear named | .remove named => named = id
  | _ => False

/-- An atlas with its device and staging buffer, in the course of a run. -/
structure World where
  atlas : Atlas
  device : Device
  staging : Staging
  /-- Lists not submitted so far, the oldest first. -/
  waiting : List Submission
  /-- By id, the last buffer that was accepted; calls that pass over an id accept none. -/
  accepted : Nat → Option PixelBuffer
  /-- Flushes so far. -/
  flushes : Nat

namespace World

/-- What the next flush starts from. -/
def frame (w : World) : Frame := ⟨w.atlas, w.device, w.staging, #[], []⟩

/-- The device once all lists that wait are submitted. -/
def settled (w : World) : Device := w.waiting.foldl (fun d s => (d.submit w.staging s.commands).1) w.device

def accept (w : World) (id : Nat) (buffer : PixelBuffer) : World :=
  { w with accepted := fun other => if other = id then some buffer else w.accepted other }

def step (w : World) : Action → World
  | .register => { w with atlas := w.atlas.register.2 }
  | .set id width height pitch bytes =>
    let (atlas, result) := w.atlas.set id width height pitch bytes
    match result with
    | .ok _ => if w.atlas.ignores id then w else { w with atlas }.accept id ⟨width, height, pitch, bytes⟩
    | .error _ => { w with atlas }
  | .clear id => { w with atlas := (w.atlas.clear id).1 }
  | .remove id => { w with atlas := (w.atlas.remove id).1 }
  | .requestLayers count => { w with atlas := w.atlas.requestLayers count }
  | .requestRepack mode => { w with atlas := w.atlas.requestRepack mode }
  | .flush =>
    let f := w.atlas.flush w.device w.staging
    { w with
      atlas := f.atlas
      device := f.device
      staging := f.staging
      waiting := w.waiting ++ [⟨w.flushes, f.atlas, w.accepted, f.commands.toList⟩]
      flushes := w.flushes + 1 }
  | .submit =>
    match w.waiting with
    | [] => w
    | s :: rest => { w with device := (w.device.submit w.staging s.commands).1, waiting := rest }
  | .finish =>
    let (atlas, device, staging) := w.atlas.deviceFinished w.device w.staging
    { w with atlas, device, staging }
  | .limitMemory limit => { w with device := { w.device with memoryLimit := limit } }
  | .reserve count alignment bytes =>
    match w.staging.allocate count alignment with
    | none => w
    | some (start, staging) => { w with staging := staging.write start bytes }

/-- All lists are submitted before the device is said to have finished. -/
def Allows (w : World) : Action → Prop
  | .submit => w.waiting ≠ []
  | .finish => w.waiting = []
  | _ => True

/-- An atlas was just created on a device with one of the copy alignments that it provides for. -/
def Starts (w : World) : Prop :=
  ∃ config device given, (device.alignment = 1 ∨ device.alignment = 2 ∨ 4 ≤ device.alignment) ∧
    Atlas.create config device given = .ok (w.atlas, w.device, w.staging) ∧
    w.waiting = [] ∧ w.accepted = (fun _ => none) ∧ w.flushes = 0

/-- The actions, one after the other, lead from one world to another. -/
inductive Run : World → List Action → World → Prop where
  | done (w : World) : Run w [] w
  | more {w last : World} {action : Action} {rest : List Action} :
      w.Allows action → Run (w.step action) rest last → Run w (action :: rest) last

end World

end TextureLoom.Atlas
