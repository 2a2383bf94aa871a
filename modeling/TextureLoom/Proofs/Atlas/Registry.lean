import TextureLoom.Proofs.Atlas.World

set_option autoImplicit false

namespace TextureLoom.Atlas

open Bytes

/-- The texture is what a buffer holds. -/
structure Texture.Reads (t : Texture) (b : PixelBuffer) : Prop where
  width : t.width = b.width
  height : t.height = b.height
  columns : 0 < b.width
  rows : 0 < b.height
  texels : ∀ x < b.width, ∀ y < b.height,
    texelAt t.bytes ((y * t.width + x) * 4) = texelAt b.bytes (y * b.rowPitch + x * 4)

theorem Texture.Reads.paddedTexel {t : Texture} {b : PixelBuffer} (reads : t.Reads b) (padding x y : Nat) :
    t.paddedTexel padding x y = b.paddedTexel padding x y := by
  have columns := reads.columns
  have rows := reads.rows
  unfold Texture.paddedTexel PixelBuffer.paddedTexel
  rw [reads.texels, reads.width, reads.height]
  · simp only [inner, reads.width]
    omega
  · simp only [inner, reads.height]
    omega

/-- A buffer that is accepted is read with its own row pitch. -/
theorem reads_of_textureOf {width height pitch : Nat} {bytes : ByteArray} {t : Texture} (columns : 0 < width)
    (rows : 0 < height) (accepted : textureOf width height pitch bytes = .ok t) :
    t.Reads ⟨width, height, pitch, bytes⟩ := by
  simp only [textureOf] at accepted
  generalize isPitch : (if pitch = 0 then width * 4 else pitch) = rowPitch at accepted
  split at accepted
  · cases accepted
  · split at accepted
    · cases accepted
    · cases accepted
      refine ⟨rfl, rfl, columns, rows, ?_⟩
      intro x column y row
      simp only [PixelBuffer.rowPitch, isPitch]
      apply texelAt_congr
      intro k channel
      exact Texture.byteAt_ofRows (by omega) column row channel

namespace Slot

/-- What a slot may be, its id being set to a buffer last. -/
structure Sound (buffer : Option PixelBuffer) (s : Slot) : Prop where
  reads : ∀ t, s.texture = some t → ∃ b, buffer = some b ∧ t.Reads b
  registered : s.texture.isSome → s.isRegistered
  loaded : s.place.isSome → s.texture.isSome
  placed : s.status = .valid → s.place.isSome

variable {buffer : Option PixelBuffer} {s : Slot}

/-- A slot without data. -/
theorem sound_of_empty (texture : s.texture = none) (place : s.place = none) (invalid : s.status ≠ .valid) :
    s.Sound buffer where
  reads := by simp [texture]
  registered := by simp [texture]
  loaded := by simp [place]
  placed := fun valid => absurd valid invalid

theorem sound_default : Sound buffer {} := sound_of_empty rfl rfl (by decide)

theorem isRegistered_of_valid (valid : s.status = .valid) : s.isRegistered = true := by
  rw [isRegistered, valid]
  decide

theorem isRegistered_of_registered (registered : s.status = .registered) : s.isRegistered = true := by
  rw [isRegistered, registered]
  decide

theorem Sound.texture_of_valid (sound : s.Sound buffer) (valid : s.status = .valid) : s.texture.isSome :=
  sound.loaded (sound.placed valid)

theorem Sound.invalid_of_unplaced (sound : s.Sound buffer) (unplaced : s.place = none) : s.status ≠ .valid := by
  intro valid
  have placed := sound.placed valid
  rw [unplaced] at placed
  cases placed

theorem Sound.loaded_texture {t : Texture} {b : PixelBuffer} (reads : t.Reads b) (s : Slot) :
    (s.loaded t).Sound (some b) where
  reads := by
    intro other isTexture
    cases isTexture
    exact ⟨b, rfl, reads⟩
  registered := fun _ => rfl
  loaded := fun _ => rfl
  placed := fun valid => by cases valid

/-- A slot with a texture may be given a place and be shown there. -/
theorem Sound.at_place (sound : s.Sound buffer) (texture : s.texture.isSome) (p : Placement) :
    Sound buffer { s with place := some p } where
  reads := sound.reads
  registered := sound.registered
  loaded := fun _ => texture
  placed := fun _ => rfl

theorem Sound.uploaded (sound : s.Sound buffer) (place : s.place.isSome) : s.uploaded.Sound buffer where
  reads := sound.reads
  registered := fun _ => rfl
  loaded := sound.loaded
  placed := fun _ => place

/-- A texture that loses its place waits to be uploaded again. -/
theorem Sound.waiting (sound : s.Sound buffer) : Sound buffer { s.unplaced with status := .pendingUpload } where
  reads := sound.reads
  registered := fun _ => rfl
  loaded := fun place => by cases place
  placed := fun valid => by cases valid

end Slot

/-- The slots, their rows in the table and the ids to hand out agree. -/
structure Registry (accepted : Nat → Option PixelBuffer) (count : Nat) (slots : Array Slot) (entries : Array Entry)
    (freeIds : List Nat) (nextId : Nat) : Prop where
  slots_size : slots.size = count
  entries_size : entries.size = count
  sound : ∀ id, (slots.getD id {}).Sound (accepted id)
  marked : ∀ id, (slots.getD id {}).status = .valid → ∃ e, entries[id]? = some e ∧ e.isValid = true
  distinct : freeIds.Nodup
  removed : ∀ id ∈ freeIds, (slots.getD id {}).status = .removed
  unused : ∀ id, nextId ≤ id → (slots.getD id {}).status = .unused

namespace Registry

variable {accepted changed : Nat → Option PixelBuffer} {count nextId later : Nat} {slots after : Array Slot}
  {entries table : Array Entry} {freeIds left : List Nat}

theorem sizes (registry : Registry accepted count slots entries freeIds nextId) : slots.size = entries.size :=
  registry.slots_size.trans registry.entries_size.symm

/-- A change of one id, which may be handed out or given back. -/
theorem update (registry : Registry accepted count slots entries freeIds nextId) {id : Nat}
    (slots_size : after.size = slots.size) (entries_size : table.size = entries.size)
    (slotOf : ∀ other, other ≠ id → after.getD other {} = slots.getD other {})
    (entryOf : ∀ other, other ≠ id → table[other]? = entries[other]?)
    (acceptedOf : ∀ other, other ≠ id → changed other = accepted other) (sound : (after.getD id {}).Sound (changed id))
    (marked : (after.getD id {}).status = .valid → ∃ e, table[id]? = some e ∧ e.isValid = true) (distinct : left.Nodup)
    (removed : ∀ other ∈ left, if other = id then (after.getD id {}).status = .removed else other ∈ freeIds)
    (unused : ∀ other, later ≤ other → other ≠ id ∧ nextId ≤ other) :
    Registry changed count after table left later where
  slots_size := slots_size.trans registry.slots_size
  entries_size := entries_size.trans registry.entries_size
  sound := by
    intro other
    by_cases same : other = id
    · exact same ▸ sound
    · rw [slotOf other same, acceptedOf other same]
      exact registry.sound other
  marked := by
    intro other
    by_cases same : other = id
    · exact same ▸ marked
    · rw [slotOf other same, entryOf other same]
      exact registry.marked other
  distinct := distinct
  removed := by
    intro other member
    have isRemoved := removed other member
    split at isRemoved
    · rename_i same
      exact same ▸ isRemoved
    · rename_i same
      rw [slotOf other same]
      exact registry.removed other isRemoved
  unused := by
    intro other beyond
    obtain ⟨same, before⟩ := unused other beyond
    rw [slotOf other same]
    exact registry.unused other before

/-- A change of an id that is in use. -/
theorem update_registered (registry : Registry accepted count slots entries freeIds nextId) {id : Nat}
    (registered : (slots.getD id {}).isRegistered = true) (slots_size : after.size = slots.size)
    (entries_size : table.size = entries.size)
    (slotOf : ∀ other, other ≠ id → after.getD other {} = slots.getD other {})
    (entryOf : ∀ other, other ≠ id → table[other]? = entries[other]?)
    (acceptedOf : ∀ other, other ≠ id → changed other = accepted other) (sound : (after.getD id {}).Sound (changed id))
    (marked : (after.getD id {}).status = .valid → ∃ e, table[id]? = some e ∧ e.isValid = true) :
    Registry changed count after table freeIds nextId := by
  refine registry.update slots_size entries_size slotOf entryOf acceptedOf sound marked registry.distinct ?_ ?_
  · intro other member
    split
    · rename_i same
      have isRemoved := registry.removed other member
      rw [same] at isRemoved
      rw [Slot.isRegistered, isRemoved] at registered
      cases registered
    · exact member
  · intro other beyond
    refine ⟨?_, beyond⟩
    rintro rfl
    rw [Slot.isRegistered, registry.unused other beyond] at registered
    cases registered

/-- A removed id may be handed out again. -/
theorem giveBack (registry : Registry accepted count slots entries freeIds nextId) {id : Nat}
    (removed : (slots.getD id {}).status = .removed) (inUse : id ∉ freeIds) :
    Registry accepted count slots entries (id :: freeIds) nextId :=
  { registry with
    distinct := List.nodup_cons.mpr ⟨inUse, registry.distinct⟩
    removed := by
      intro other member
      rcases List.mem_cons.mp member with rfl | earlier
      · exact removed
      · exact registry.removed other earlier }

end Registry

end TextureLoom.Atlas
