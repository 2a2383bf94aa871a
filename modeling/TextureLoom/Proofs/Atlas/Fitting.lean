import TextureLoom.Proofs.Atlas.Adopting

set_option autoImplicit false

namespace TextureLoom.Atlas

open Bytes

variable {accepted : Nat → Option PixelBuffer} {a b c : Atlas} {id : Nat} {t : Texture} {p : Placement}

/-- Each texture with a place has one of its padded size, in the live image and in the plan of a running repack. -/
def Fitted (a : Atlas) : Prop :=
  (∀ id t p, (a.slot id).texture = some t → a.placement? id = some p → p.Fits t a.config.padding) ∧
  ∀ r id t p, a.repack = some r → (a.slot id).texture = some t → r.places.get? id = some p → p.Fits t a.config.padding

/-- A copy into an image is of the padded texture of an id in its own shape, out of staged bytes that are just those of
the padded texture. -/
def Command.CopiesTexture (a : Atlas) (staging : Staging) : Command → Prop
  | .copyToImage offset _ _ _ _ width height => ∃ id t, (a.slot id).texture = some t ∧
      width = t.width + 2 * a.config.padding ∧ height = t.height + 2 * a.config.padding ∧
      (t.padded a.config.padding).size = width * height * 4 ∧ offset + width * height * 4 ≤ staging.used ∧
      ∀ k < width * height * 4, byteAt staging.bytes (offset + k) = byteAt (t.padded a.config.padding) k
  | _ => True

theorem Command.CopiesTexture.extend {c : Command} {staging later : Staging} (copies : c.CopiesTexture a staging)
    (grown : later.Extends staging) : c.CopiesTexture a later := by
  cases c with
  | copyToImage offset target layer x y width height =>
    obtain ⟨id, t, texture, isWidth, isHeight, size, inUse, staged⟩ := copies
    refine ⟨id, t, texture, isWidth, isHeight, size, Nat.le_trans inUse grown.used, ?_⟩
    intro k bound
    rw [grown.bytes _ (by omega), staged k bound]
  | _ => trivial

/-- What recording a flush keeps of an atlas, whatever the device does with the list. -/
structure Keeps (accepted : Nat → Option PixelBuffer) (a b : Atlas) : Prop where
  registry : Registry accepted b.config.maxTextureId b.slots b.entries b.freeIds b.nextId
  config : b.config = a.config
  alignment : b.alignment = a.alignment
  texture : ∀ id, (b.slot id).texture = (a.slot id).texture
  registered : ∀ id, (b.slot id).isRegistered = (a.slot id).isRegistered
  fitted : a.Fitted → b.Fitted

theorem Fitted.edit (fitted : a.Fitted) (edits : Edits id a b)
    (live : ∀ t p, (b.slot id).texture = some t → b.placement? id = some p → p.Fits t a.config.padding)
    (planned : ∀ r t p, b.repack = some r → (b.slot id).texture = some t → r.places.get? id = some p →
      p.Fits t a.config.padding) : b.Fitted := by
  rw [Fitted, edits.config]
  constructor
  · intro other t p texture placed
    by_cases same : other = id
    · subst same
      exact live t p texture placed
    · rw [placement?, edits.slotOf other same] at placed
      rw [edits.slotOf other same] at texture
      exact fitted.1 other t p texture placed
  · intro r other t p running texture isPlanned
    by_cases same : other = id
    · subst same
      exact planned r t p running texture isPlanned
    · rw [edits.slotOf other same] at texture
      obtain ⟨old, isOld, follows⟩ := edits.repack r running
      exact fitted.2 old other t p isOld texture (follows.fewer other p isPlanned)

/-- A change of one id that keeps its texture. -/
theorem Keeps.edit (keeps : Keeps accepted a b) (edits : Edits id b c)
    (registry : Registry accepted c.config.maxTextureId c.slots c.entries c.freeIds c.nextId)
    (texture : (c.slot id).texture = (b.slot id).texture)
    (registered : (c.slot id).isRegistered = (b.slot id).isRegistered)
    (live : ∀ t p, (b.slot id).texture = some t → c.placement? id = some p → p.Fits t b.config.padding ∨
      b.placement? id = some p) : Keeps accepted a c where
  registry := registry
  config := edits.config.trans keeps.config
  alignment := edits.alignment.trans keeps.alignment
  texture := by
    intro other
    by_cases same : other = id
    · subst same
      exact texture.trans (keeps.texture other)
    · rw [edits.slotOf other same]
      exact keeps.texture other
  registered := by
    intro other
    by_cases same : other = id
    · subst same
      exact registered.trans (keeps.registered other)
    · rw [edits.slotOf other same]
      exact keeps.registered other
  fitted := by
    intro before
    have fitted := keeps.fitted before
    refine fitted.edit edits ?_ ?_
    · intro t p isTexture placed
      rw [texture] at isTexture
      rcases live t p isTexture placed with fits | already
      · exact fits
      · exact fitted.1 id t p isTexture already
    · intro r t p running isTexture planned
      rw [texture] at isTexture
      obtain ⟨old, isOld, follows⟩ := edits.repack r running
      exact fitted.2 old id t p isOld isTexture (follows.fewer id p planned)

namespace Keeps

theorem refl (registry : Registry accepted a.config.maxTextureId a.slots a.entries a.freeIds a.nextId) :
    Keeps accepted a a :=
  ⟨registry, rfl, rfl, fun _ => rfl, fun _ => rfl, fun fitted => fitted⟩

/-- Of an atlas, only image, table rows, bins and queues differ. -/
theorem rest (keeps : Keeps accepted a b) (image : OwnedImage) {entries : Array Entry}
    (registry : Registry accepted b.config.maxTextureId b.slots entries b.freeIds b.nextId) (tableStale : Bool)
    (pending : Queue) (bins : List Bin) (retired : List Nat) (layerRequest : Nat) :
    Keeps accepted a { b with image, entries, tableStale, pending, bins, retired, layerRequest } :=
  { keeps with registry := registry }

/-- Of a running repack, only what is not its plan differs. -/
theorem mapRepack (keeps : Keeps accepted a b) {f : Repack → Repack} (same : ∀ r, (f r).places = r.places) :
    Keeps accepted a { b with repack := b.repack.map f } :=
  { keeps with
    fitted := by
      intro before
      refine ⟨(keeps.fitted before).1, ?_⟩
      intro r id t p running texture planned
      obtain ⟨old, isOld, rfl⟩ := Option.map_eq_some_iff.mp running
      rw [same] at planned
      exact (keeps.fitted before).2 old id t p isOld texture planned }

/-- An id is shown at its place. -/
theorem reveal (keeps : Keeps accepted a b) (texture : (b.slot id).texture = some t)
    (placed : (b.slot id).place = some p) :
    Keeps accepted a ((b.modifySlot id Slot.uploaded).showPlace id) := by
  have slotSound : (b.slot id).Sound (accepted id) := keeps.registry.sound id
  have registered : (b.slot id).isRegistered = true := slotSound.registered (by rw [texture]; rfl)
  have sizes := keeps.registry.sizes
  have reveals := reveals_showPlace sizes (lt_of_isRegistered registered) placed
  generalize (b.modifySlot id Slot.uploaded).showPlace id = c at reveals
  refine keeps.edit reveals.edits (reveals.registry keeps.registry registered placed) ?_ ?_ ?_
  · rw [reveals.slot]
    rfl
  · rw [reveals.slot, registered]
    rfl
  · intro u q _ isPlaced
    rw [placement?, reveals.slot] at isPlaced
    exact Or.inr isPlaced

/-- A texture without a place gets one of its padded size. -/
theorem place (keeps : Keeps accepted a b) (texture : (b.slot id).texture = some t)
    (unplaced : (b.slot id).place = none)
    (found : b.place? id (t.width + 2 * b.config.padding) (t.height + 2 * b.config.padding) = some c) :
    Keeps accepted a c := by
  obtain ⟨p, situates⟩ := situates_of_place? found
  have slotSound : (b.slot id).Sound (accepted id) := keeps.registry.sound id
  have hasTexture : (b.slot id).texture.isSome := by rw [texture]; rfl
  have slotOf := situates.slot (lt_of_isRegistered (slotSound.registered hasTexture))
  have registry := situates.registry keeps.registry hasTexture (slotSound.invalid_of_unplaced unplaced)
  refine keeps.edit situates.edits registry (by rw [slotOf]) (by rw [slotOf]; rfl) ?_
  intro u q isTexture isPlaced
  rw [placement?, slotOf] at isPlaced
  cases isPlaced
  cases texture.symm.trans isTexture
  exact Or.inl ⟨situates.takes.width_eq, situates.takes.height_eq⟩

/-- The image of a repack becomes the live one. -/
theorem adopt (keeps : Keeps accepted a b) {r : Repack} (running : b.repack = some r) :
    Keeps accepted a (b.adopt r) := by
  have adopts := adopts_adopt keeps.registry r
  generalize b.adopt r = c at adopts
  refine ⟨adopts.registry, adopts.config.trans keeps.config, adopts.alignment.trans keeps.alignment, ?_, ?_, ?_⟩
  · intro id
    rw [adopts.slotOf, texture_settledSlot, keeps.texture]
  · intro id
    rw [adopts.slotOf, isRegistered_settledSlot, keeps.registered]
  · intro before
    refine ⟨?_, fun r id t p isRunning => by cases adopts.repack.symm.trans isRunning⟩
    intro id t p texture placed
    rw [adopts.slotOf, texture_settledSlot] at texture
    rw [placement?, adopts.slotOf] at placed
    rw [adopts.config]
    exact (keeps.fitted before).2 r id t p running texture (place_settledSlot (keeps.registry.sound id) placed)

/-- A repack starts with a place of its padded size for each texture. -/
theorem start (keeps : Keeps accepted a b) {capacity : Capacity} {plan : Plan}
    (planned : planFor? b.repackItems capacity = some plan) {r : Repack} (places : r.places = plan.places) :
    Keeps accepted a { b with repackRequest := none, repack := some r } :=
  { keeps with
    fitted := by
      intro before
      refine ⟨(keeps.fitted before).1, ?_⟩
      intro other id t p isOther texture found
      cases isOther
      obtain ⟨q, isPlace, width, height⟩ :=
        get?_of_planFor? planned (nodup_repackItems b) _ (mem_repackItems texture)
      rw [places] at found
      cases isPlace.symm.trans found
      exact ⟨width, height⟩ }

end Keeps

end TextureLoom.Atlas
