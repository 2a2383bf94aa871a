import TextureLoom.Proofs.Atlas.Commands
import TextureLoom.Proofs.Atlas.Packed
import TextureLoom.Proofs.Atlas.Registry
import TextureLoom.Proofs.Atlas.Waiting

set_option autoImplicit false

namespace TextureLoom.Atlas

open Bytes

/-- The place has the size of the texture with its padding. -/
structure Placement.Fits (p : Placement) (t : Texture) (padding : Nat) : Prop where
  width : p.width = t.width + 2 * padding
  height : p.height = t.height + 2 * padding

theorem Placement.Fits.of_size {p : Placement} {old t : Texture} {padding : Nat} (fits : p.Fits old padding)
    (size : old.width = t.width ∧ old.height = t.height) : p.Fits t padding :=
  ⟨size.1 ▸ fits.width, size.2 ▸ fits.height⟩

/-- The image holds the padded texture at a place. -/
def Device.Holds (d : Device) (handle : Nat) (p : Placement) (t : Texture) (padding : Nat) : Prop :=
  ∀ i < p.width, ∀ j < p.height, d.texel? handle p.layer (p.x + i) (p.y + j) = some (t.paddedTexel padding i j)

/-- The texels at a place are the same in two images. -/
def Device.SameAt (before : Device) (handle : Nat) (after : Device) (later : Nat) (p : Placement) : Prop :=
  ∀ x y, p.rect.Covers x y → after.texel? later p.layer x y = before.texel? handle p.layer x y

theorem Device.Holds.sameAt {before after : Device} {handle later padding : Nat} {p : Placement} {t : Texture}
    (holds : before.Holds handle p t padding) (same : before.SameAt handle after later p) :
    after.Holds later p t padding := by
  intro i column j row
  have covers : p.rect.Covers (p.x + i) (p.y + j) := by
    simp only [Rect.Covers, Rect.right, Rect.bottom, Placement.rect]
    omega
  exact (same _ _ covers).trans (holds i column j row)

/-- What an atlas knows of the image that a repack fills. -/
structure Repack.Sound (count image : Nat) (retired : List Nat) (live : Device) (r : Repack) : Prop where
  tracked : ∃ i, live.Tracks r.image i
  apart : r.image.handle ≠ image
  kept : r.image.handle ∉ retired
  places : PlacesSound r.places.get? r.image.capacity
  queue : r.queue.Sound count

/-- A running repack has a place for a texture, and holds it there once nothing is queued for it. -/
structure Repack.Plans (padding : Nat) (live : Device) (todo : List Nat) (id : Nat) (t : Texture) (p : Placement)
    (r : Repack) : Prop where
  planned : r.places.get? id = some p
  fits : p.Fits t padding
  holds : r.progress = .draining ∧ (id ∈ todo ∨ r.queue.contains id = true) ∨ live.Holds r.image.handle p t padding

/-- The texels of a slot are in the image once it is valid, and on their way into the image of a running repack; the
ids of `todo` were taken from its queue but not uploaded so far. -/
structure Content (padding image : Nat) (repack : Option Repack) (live : Device) (todo : List Nat) (id : Nat)
    (s : Slot) : Prop where
  fits : ∀ t p, s.texture = some t → s.place = some p → p.Fits t padding
  shown : ∀ t p, s.status = .valid → s.texture = some t → s.place = some p → live.Holds image p t padding
  planned : ∀ r t, repack = some r → s.status = .valid → s.texture = some t → ∃ p, r.Plans padding live todo id t p

/-- All ids are tracked while no repack runs or was asked for. -/
structure Calm (tracked : Nat → Prop) (repack : Option Repack) (request : Option RepackMode) : Prop where
  all : ∀ id, tracked id
  idle : repack = none
  unasked : request = none

/-- What holds of an atlas throughout a flush, `live` being the device once all that was recorded has run. The texels
of the tracked ids are accounted for; these stay valid, unless all ids are tracked and no repack is about. -/
structure Sound (tracked : Nat → Prop) (accepted : Nat → Option PixelBuffer) (a : Atlas) (live : Device)
    (todo : List Nat) : Prop where
  image : ∃ i, live.Tracks a.image i
  retired : ∀ handle ∈ a.retired, handle ≤ live.handles ∧ handle ≠ a.image.handle
  repack : ∀ r, a.repack = some r → r.Sound a.config.maxTextureId a.image.handle a.retired live
  table : live.HasBuffer a.tableBuffer a.config.tableBytes
  aligned : live.alignment ∣ a.alignment
  alignment_pos : 0 < a.alignment
  packed : Packed a.placement? a.bins a.image.capacity
  usable : ∀ id buffer, accepted id = some buffer → id ≠ noId ∧ a.config.reservedCount ≤ id
  registry : Registry accepted a.config.maxTextureId a.slots a.entries a.freeIds a.nextId
  steady : Calm tracked a.repack a.repackRequest ∨ ∀ id, tracked id → (a.slot id).status = .valid
  content : ∀ id, tracked id → Content a.config.padding a.image.handle a.repack live todo id (a.slot id)

theorem Sound.valid_of_running {tracked : Nat → Prop} {accepted : Nat → Option PixelBuffer} {a : Atlas} {live : Device}
    {todo : List Nat} {r : Repack} (sound : Sound tracked accepted a live todo) (running : a.repack = some r) :
    ∀ id, tracked id → (a.slot id).status = .valid := by
  apply sound.steady.resolve_left
  intro calm
  cases running.symm.trans calm.idle

end TextureLoom.Atlas
