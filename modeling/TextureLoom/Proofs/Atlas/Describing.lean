import TextureLoom.Proofs.Atlas.Catching
import TextureLoom.Proofs.Atlas.Layering

set_option autoImplicit false

namespace TextureLoom.Atlas

variable {accepted : Nat → Option PixelBuffer} {a : Atlas} {id side : Nat} {s : Slot} {e : Entry} {p : Placement}

/-- A row points at a place in an image of a side: into its layer, and from the centre of its first texel to that of its
last, as fractions of the side. -/
structure Entry.Describes (e : Entry) (p : Placement) (side : Nat) : Prop where
  layer : e.layer.toNat = p.layer
  uMin : e.uMin = ((Float32.ofNat p.x + 0.5) / Float32.ofNat side).toBits
  vMin : e.vMin = ((Float32.ofNat p.y + 0.5) / Float32.ofNat side).toBits
  uMax : e.uMax = ((Float32.ofNat p.x + Float32.ofNat p.width - 0.5) / Float32.ofNat side).toBits
  vMax : e.vMax = ((Float32.ofNat p.y + Float32.ofNat p.height - 0.5) / Float32.ofNat side).toBits

theorem describes_ofPlacement (layer : p.layer < UInt32.size) (side : Nat) :
    (Entry.ofPlacement p side).Describes p side where
  layer := UInt32.toNat_ofNat_of_lt' layer
  uMin := rfl
  vMin := rfl
  uMax := rfl
  vMax := rfl

/-- Only the row of an id that was uploaded to its place is valid. -/
theorem Labels.of_isValid (labels : Labels side s e) (valid : e.isValid = true) :
    s.isRegistered = true ∧ ∃ p, s.place = some p ∧ e = .ofPlacement p side := by
  cases labels with
  | shown status _ placed _ =>
    refine ⟨?_, _, placed, rfl⟩
    rcases status with status | status <;> (rw [Slot.isRegistered, status]; rfl)
  | vacant _ _ => exact absurd valid (by decide)
  | empty _ _ _ => exact absurd valid (by decide)
  | marked _ _ _ _ => exact absurd valid (by decide)
  | refused _ _ _ _ => exact absurd valid (by decide)
  | waiting _ _ _ => exact absurd valid (by decide)

namespace World

variable {w : World}

/-- Whatever is called, in whatever order, the row of an id that is not reserved is valid only while the id is in use and
has a place, and then it points at that place in the live image as large as that is. -/
theorem describes_of_isValid {c : Config} {device : Device} {given : Option Staging}
    (created : Atlas.create c device given = .ok (w.atlas, w.device, w.staging)) (actions : List Action) :
    let a := (actions.foldl step w).atlas
    ∀ id e, a.config.reservedCount ≤ id → a.entry? id = some e → e.isValid = true →
      (a.slot id).isRegistered = true ∧ ∃ p, a.placement? id = some p ∧ e.Describes p a.side := by
  intro a id e usable row valid
  obtain ⟨accepted, labelled⟩ := (labelled_of_create created).run actions
  obtain ⟨layered, few⟩ := layered_of_create created
  have layers := (layered.run (orderly_of_create created) actions).image
  have config := (fixes_foldl (orderly_of_create created) actions).config
  have inside : id < a.config.maxTextureId := by
    rw [← labelled.registry.entries_size]
    exact (Array.getElem?_eq_some_iff.mp row).1
  obtain ⟨other, isOther, labels⟩ := labelled.rows id usable inside
  cases row.symm.trans isOther
  obtain ⟨registered, p, placed, rfl⟩ := labels.of_isValid valid
  refine ⟨registered, p, placed, describes_ofPlacement ?_ _⟩
  have within : p.layer < a.image.capacity.layers := (labelled.packed.sound.within id p placed).layer
  have small : layerLimit < UInt32.size := by decide
  rw [config] at layers
  exact Nat.lt_of_lt_of_le within (Nat.le_trans layers (Nat.le_trans few (Nat.le_of_lt small)))

/-- The row of a texture that a repack has moved. -/
theorem describes_of_isValid_repacking : (∃ c device given,
      Atlas.create c device given = .ok (sample.atlas, sample.device, sample.staging)) ∧
    (readied.step .flush).atlas.image.handle ≠ sample.atlas.image.handle ∧
    ∃ e p, (readied.step .flush).atlas.entry? 2 = some e ∧ e.isValid = true ∧
      (readied.step .flush).atlas.placement? 2 = some p ∧ e.Describes p (readied.step .flush).atlas.side := by
  obtain ⟨c, device, given, _, created, _⟩ := starts_sample
  have moved : (readied.step .flush).atlas.image.handle ≠ sample.atlas.image.handle ∧
      (readied.step .flush).atlas.config.reservedCount ≤ 2 ∧
      ((readied.step .flush).atlas.entry? 2).map (·.isValid) = some true := by
    decide +kernel
  obtain ⟨e, row, valid⟩ := Option.map_eq_some_iff.mp moved.2.2
  have course : (repacking ++ [Action.flush]).foldl step sample = readied.step .flush := by
    rw [Caught.foldl_snoc, foldl_repacking]
  have described := describes_of_isValid created (repacking ++ [Action.flush]) 2 e
  rw [course] at described
  obtain ⟨_, p, placed, describes⟩ := described moved.2.1 row valid
  exact ⟨⟨c, device, given, created⟩, moved.1, e, p, row, valid, placed, describes⟩

end World

end TextureLoom.Atlas
