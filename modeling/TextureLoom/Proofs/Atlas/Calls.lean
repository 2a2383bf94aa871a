import TextureLoom.Proofs.Atlas.Editing

set_option autoImplicit false

namespace TextureLoom.Atlas

variable {tracked : Nat → Prop} {accepted changed : Nat → Option PixelBuffer} {a b : Atlas} {live : Device}
  {todo : List Nat} {id : Nat}

theorem slot_of_le (beyond : a.slots.size ≤ id) : a.slot id = {} := by
  simp [slot, Array.getD, Nat.not_lt.mpr beyond]

theorem status_of_status? {a : Atlas} {status : Status} (found : a.status? id = some status) :
    (a.slot id).status = status := by
  unfold status? at found
  split at found
  · cases found
  · exact Option.some.inj found

theorem lt_of_status (used : (a.slot id).status ≠ .unused) : id < a.slots.size := by
  by_cases bound : id < a.slots.size
  · exact bound
  · rw [slot_of_le (Nat.not_lt.mp bound)] at used
    exact absurd rfl used

theorem lt_of_isRegistered (registered : (a.slot id).isRegistered = true) : id < a.slots.size := by
  apply lt_of_status
  intro unused
  rw [Slot.isRegistered, unused] at registered
  cases registered

theorem slot_modifySlot_self (bound : id < a.slots.size) (f : Slot → Slot) :
    (a.modifySlot id f).slot id = f (a.slot id) := by
  rw [slot_modifySlot, if_pos ⟨rfl, bound⟩]

theorem slot_setEntry (a : Atlas) (id other : Nat) (e : Entry) : (a.setEntry id e).slot other = a.slot other := rfl

theorem slot_dequeue (a : Atlas) (id other : Nat) : (a.dequeue id).slot other = a.slot other := rfl

/-- The bins of an atlas are in order once the place of an id is given back. -/
theorem Packed.of_releasePlace (packed : Packed a.placement? a.bins a.image.capacity)
    (bins : b.bins = (a.releasePlace id).bins) (slotOf : ∀ other, other ≠ id → b.slot other = a.slot other)
    (unplaced : (b.slot id).place = none) : Packed b.placement? b.bins a.image.capacity := by
  have others : ∀ other p, b.placement? other = some p ↔ other ≠ id ∧ a.placement? other = some p := by
    intro other p
    by_cases same : other = id
    · simp [same, placement?, unplaced]
    · simp [same, placement?, slotOf other same]
  rw [bins, releasePlace]
  rcases placed : a.placement? id with _ | p
  · have unchanged : b.placement? = a.placement? := by
      funext other
      ext p
      rw [others]
      refine and_iff_right_of_imp ?_
      rintro isPlaced rfl
      cases placed.symm.trans isPlaced
    exact unchanged ▸ packed
  · exact packed.release placed others

/-- An id loses its place and its data, and has this slot then. -/
structure Empties (id : Nat) (left : Slot) (a b : Atlas) : Prop where
  edits : Edits id a b
  bins : b.bins = (a.releasePlace id).bins
  freeIds : b.freeIds = a.freeIds
  nextId : b.nextId = a.nextId
  slot : b.slot id = left
  texture : left.texture = none
  place : left.place = none
  invalid : left.status ≠ .valid

theorem empties_of (registered : (a.slot id).isRegistered = true) {f : Slot → Slot}
    (texture : (f (a.slot id).unplaced).texture = none) (place : (f (a.slot id).unplaced).place = none)
    (invalid : (f (a.slot id).unplaced).status ≠ .valid) (e : Entry) :
    Empties id (f (a.slot id).unplaced) a ((((a.releasePlace id).modifySlot id f).dequeue id).setEntry id e) where
  edits := (((edits_releasePlace a id).trans (edits_modifySlot _ id f)).trans (edits_dequeue _ id)).trans
    (edits_setEntry _ id e)
  bins := by simp only [setEntry, dequeue, leaveRepack, modifySlot]
  freeIds := by simp only [setEntry, dequeue, leaveRepack, modifySlot, releasePlace]
  nextId := by simp only [setEntry, dequeue, leaveRepack, modifySlot, releasePlace]
  slot := by
    have bound := lt_of_isRegistered registered
    have released : (a.releasePlace id).slot id = (a.slot id).unplaced := slot_modifySlot_self bound Slot.unplaced
    have size : id < (a.releasePlace id).slots.size := by
      rw [(edits_releasePlace a id).slots_size]
      exact bound
    rw [slot_setEntry, slot_dequeue, slot_modifySlot_self size, released]
  texture := texture
  place := place
  invalid := invalid

theorem Empties.registry {left : Slot} (empties : Empties id left a b)
    (registry : Registry accepted a.config.maxTextureId a.slots a.entries a.freeIds a.nextId)
    (registered : (a.slot id).isRegistered = true) :
    Registry accepted b.config.maxTextureId b.slots b.entries b.freeIds b.nextId := by
  have invalid : (b.slot id).status ≠ .valid := empties.slot ▸ empties.invalid
  have sound : (b.slot id).Sound (accepted id) :=
    empties.slot ▸ Slot.sound_of_empty empties.texture empties.place empties.invalid
  rw [empties.edits.config, empties.freeIds, empties.nextId]
  exact registry.update_registered registered empties.edits.slots_size empties.edits.entries_size empties.edits.slotOf
    empties.edits.entryOf (fun _ _ => rfl) sound fun valid => absurd valid invalid

theorem Registry.not_mem_freeIds {count nextId : Nat} {slots : Array Slot} {entries : Array Entry} {freeIds : List Nat}
    (registry : Registry accepted count slots entries freeIds nextId)
    (registered : (slots.getD id {}).isRegistered = true) : id ∉ freeIds := by
  intro member
  rw [Slot.isRegistered, registry.removed id member] at registered
  cases registered

theorem Sound.empty {left : Slot} (sound : Sound tracked accepted a live todo) (empties : Empties id left a b)
    (registered : (a.slot id).isRegistered = true)
    (calm : tracked id → Calm tracked a.repack a.repackRequest) : Sound tracked accepted b live todo := by
  refine sound.edit empties.edits ?_ sound.usable (empties.registry sound.registry registered)
    (fun isTracked => Or.inl (calm isTracked)) ?_
  · rw [empties.edits.image]
    exact sound.packed.of_releasePlace empties.bins empties.edits.slotOf (empties.slot ▸ empties.place)
  · intro _
    rw [empties.slot]
    exact Content.of_empty empties.texture

theorem empties_reject (registered : (a.slot id).isRegistered = true) :
    Empties id (a.slot id).unplaced.rejected a (a.reject id) := by
  rw [Atlas.reject]
  exact empties_of registered rfl rfl (by simp [Slot.rejected]) _

theorem empties_clear (registered : (a.slot id).isRegistered = true) :
    Empties id (a.slot id).unplaced.cleared a (a.forget id Slot.cleared) := by
  rw [forget]
  exact empties_of registered rfl rfl (by simp [Slot.cleared]) _

theorem empties_discard (registered : (a.slot id).isRegistered = true) :
    Empties id (a.slot id).unplaced.discarded a (a.forget id Slot.discarded) := by
  rw [forget]
  exact empties_of registered rfl rfl (by simp [Slot.discarded]) _

theorem Sound.reject (sound : Sound tracked accepted a live todo) (registered : (a.slot id).isRegistered = true)
    (calm : tracked id → Calm tracked a.repack a.repackRequest) :
    Sound tracked accepted (a.reject id) live todo := sound.empty (empties_reject registered) registered calm

theorem isRegistered_of_check {result : Unit} (checked : a.check id = .ok result) :
    (a.slot id).isRegistered = true := by
  unfold check at checked
  split at checked
  · cases checked
  · split at checked
    · assumption
    · cases checked

theorem Sound.clear (sound : Sound tracked accepted a live todo)
    (calm : tracked id → Calm tracked a.repack a.repackRequest) :
    Sound tracked accepted (a.clear id).1 live todo := by
  unfold Atlas.clear
  split
  · exact sound
  · split
    · exact sound
    · rename_i checked
      have registered := isRegistered_of_check checked
      exact sound.empty (empties_clear registered) registered calm

theorem Sound.remove (sound : Sound tracked accepted a live todo)
    (calm : tracked id → Calm tracked a.repack a.repackRequest) :
    Sound tracked accepted (a.remove id).1 live todo := by
  unfold Atlas.remove
  split
  · exact sound
  · split
    · exact sound
    · rename_i checked
      have registered := isRegistered_of_check checked
      have empties := empties_discard registered
      have inUse := sound.registry.not_mem_freeIds registered
      simp only
      generalize a.forget id Slot.discarded = b at empties
      have forgotten := sound.empty empties registered calm
      exact
        { forgotten with
          registry := forgotten.registry.giveBack (congrArg Slot.status empties.slot) (empties.freeIds ▸ inUse) }

/-- Nothing that decides on places and on ids to hand out is different. -/
structure Leaves (a b : Atlas) : Prop where
  slots : b.slots = a.slots
  bins : b.bins = a.bins
  freeIds : b.freeIds = a.freeIds
  nextId : b.nextId = a.nextId

theorem releaseResized_cases (a : Atlas) (id width height : Nat) :
    (a.releaseResized id width height = a ∧
      ∀ old, (a.slot id).texture = some old → old.width = width ∧ old.height = height) ∨
    a.releaseResized id width height = ((a.releasePlace id).setEntry id .pending).unplan id := by
  unfold releaseResized
  split
  · rename_i old isOld
    split
    · rename_i same
      refine Or.inl ⟨rfl, ?_⟩
      intro other isOther
      rw [isOld] at isOther
      cases isOther
      exact same
    · exact Or.inr rfl
  · rename_i none
    refine Or.inl ⟨rfl, ?_⟩
    intro other isOther
    rw [none] at isOther
    cases isOther

/-- A texture is set for an id that keeps its place, or that has given it back as the size is another one. -/
structure Loads (id : Nat) (t : Texture) (a b : Atlas) : Prop where
  edits : Edits id a b
  freeIds : b.freeIds = a.freeIds
  nextId : b.nextId = a.nextId
  cases : b.bins = a.bins ∧ b.slot id = (a.slot id).loaded t ∧
      (∀ old, (a.slot id).texture = some old → old.width = t.width ∧ old.height = t.height) ∨
    b.bins = (a.releasePlace id).bins ∧ b.slot id = (a.slot id).unplaced.loaded t

/-- A texture that is set waits to be uploaded. -/
theorem edits_enqueue (a : Atlas) (id : Nat) (t : Texture) :
    let loaded := a.modifySlot id (·.loaded t)
    let marked := if (loaded.placement? id).isNone then loaded.setEntry id .pending else loaded
    let queued := { marked with pending := marked.pending.push id }.joinRepack id
    Edits id a queued ∧ Leaves loaded queued := by
  intro loaded marked queued
  have marks : Edits id loaded marked ∧ Leaves loaded marked := by
    unfold marked
    split
    · exact ⟨edits_setEntry loaded id _, rfl, rfl, rfl, rfl⟩
    · exact ⟨Edits.refl id loaded, rfl, rfl, rfl, rfl⟩
  obtain ⟨edits, leaves⟩ := marks
  exact ⟨(((edits_modifySlot a id _).trans edits).trans (edits_pushPending marked id)).trans (edits_joinRepack _ id),
    leaves.slots, leaves.bins, leaves.freeIds, leaves.nextId⟩

theorem loads_load (registered : (a.slot id).isRegistered = true) (t : Texture) : Loads id t a (a.load id t) := by
  have bound := lt_of_isRegistered registered
  rw [load]
  rcases releaseResized_cases a id t.width t.height with ⟨kept, size⟩ | released
  · rw [kept]
    obtain ⟨edits, leaves⟩ := edits_enqueue a id t
    refine ⟨edits, leaves.freeIds, leaves.nextId, Or.inl ⟨leaves.bins, ?_, size⟩⟩
    rw [slot, leaves.slots]
    exact slot_modifySlot_self bound _
  · rw [released]
    have releases : Edits id a (((a.releasePlace id).setEntry id .pending).unplan id) :=
      ((edits_releasePlace a id).trans (edits_setEntry _ id _)).trans (edits_unplan _ id)
    have slotOf : (((a.releasePlace id).setEntry id .pending).unplan id).slot id = (a.slot id).unplaced := by
      simp only [unplan, setEntry, releasePlace]
      exact slot_modifySlot_self bound Slot.unplaced
    have size : id < (((a.releasePlace id).setEntry id .pending).unplan id).slots.size := by
      rw [releases.slots_size]
      exact bound
    have sameBins : (((a.releasePlace id).setEntry id .pending).unplan id).bins = (a.releasePlace id).bins := by
      simp only [unplan, setEntry]
    have sameIds : (((a.releasePlace id).setEntry id .pending).unplan id).freeIds = a.freeIds ∧
        (((a.releasePlace id).setEntry id .pending).unplan id).nextId = a.nextId := by
      simp only [unplan, setEntry, releasePlace, and_self]
    generalize ((a.releasePlace id).setEntry id .pending).unplan id = middle at releases slotOf size sameBins sameIds
    obtain ⟨edits, leaves⟩ := edits_enqueue middle id t
    refine ⟨releases.trans edits, leaves.freeIds.trans sameIds.1, leaves.nextId.trans sameIds.2,
      Or.inr ⟨leaves.bins.trans sameBins, ?_⟩⟩
    rw [slot, leaves.slots, ← slotOf]
    exact slot_modifySlot_self size _

theorem Loads.pending {t : Texture} (loads : Loads id t a b) : (b.slot id).status = .pendingUpload := by
  rcases loads.cases with ⟨_, slotOf, _⟩ | ⟨_, slotOf⟩ <;> rw [slotOf] <;> rfl

theorem Loads.texture {t : Texture} (loads : Loads id t a b) : (b.slot id).texture = some t := by
  rcases loads.cases with ⟨_, slotOf, _⟩ | ⟨_, slotOf⟩ <;> rw [slotOf] <;> rfl

theorem Loads.registry {t : Texture} {buffer : PixelBuffer} (loads : Loads id t a b)
    (registry : Registry accepted a.config.maxTextureId a.slots a.entries a.freeIds a.nextId)
    (registered : (a.slot id).isRegistered = true) (reads : t.Reads buffer) :
    Registry (fun other => if other = id then some buffer else accepted other) b.config.maxTextureId b.slots b.entries
      b.freeIds b.nextId := by
  have slotSound : (b.slot id).Sound (some buffer) := by
    rcases loads.cases with ⟨_, slotOf, _⟩ | ⟨_, slotOf⟩ <;> rw [slotOf] <;> exact Slot.Sound.loaded_texture reads _
  rw [loads.edits.config, loads.freeIds, loads.nextId]
  refine registry.update_registered registered loads.edits.slots_size loads.edits.entries_size loads.edits.slotOf
    loads.edits.entryOf (fun other distinct => if_neg distinct) ?_ ?_
  · rw [if_pos rfl]
    exact slotSound
  · intro valid
    rw [show (b.slots.getD id {}).status = .pendingUpload from loads.pending] at valid
    cases valid

theorem Packed.load {t : Texture} (packed : Packed a.placement? a.bins a.image.capacity) (loads : Loads id t a b) :
    Packed b.placement? b.bins a.image.capacity := by
  rcases loads.cases with ⟨bins, slotOf, _⟩ | ⟨bins, slotOf⟩
  · have same : b.placement? id = a.placement? id := by
      rw [placement?, slotOf]
      rfl
    rw [bins, loads.edits.placement?_eq same]
    exact packed
  · exact packed.of_releasePlace bins loads.edits.slotOf (by rw [slotOf]; rfl)

/-- A texture that keeps its place fits it as the one before did. -/
theorem Content.load {padding image : Nat} {t : Texture} {repack repackAfter : Option Repack}
    (content : Content padding image repack live todo id (a.slot id)) (sound : (a.slot id).Sound (accepted id))
    (loads : Loads id t a b) : Content padding image repackAfter live todo id (b.slot id) := by
  have pending := loads.pending
  refine ⟨?_, fun t p valid => ?_, fun r t _ valid => ?_⟩
  · intro other p isTexture placed
    rcases loads.cases with ⟨_, slotOf, size⟩ | ⟨_, slotOf⟩
    · rw [slotOf] at isTexture placed
      cases isTexture
      have isPlaced : (a.slot id).place = some p := placed
      obtain ⟨old, isOld⟩ := Option.isSome_iff_exists.mp (sound.loaded (by rw [isPlaced]; rfl))
      obtain ⟨width, height⟩ := content.fits old p isOld isPlaced
      obtain ⟨sameWidth, sameHeight⟩ := size old isOld
      exact ⟨sameWidth ▸ width, sameHeight ▸ height⟩
    · rw [slotOf] at placed
      cases placed
  · rw [pending] at valid
    cases valid
  · rw [pending] at valid
    cases valid

theorem Sound.load {t : Texture} {buffer : PixelBuffer} (sound : Sound tracked accepted a live todo)
    (notIgnored : a.ignores id = false) (registered : (a.slot id).isRegistered = true) (reads : t.Reads buffer)
    (calm : tracked id → Calm tracked a.repack a.repackRequest) :
    Sound tracked (fun other => if other = id then some buffer else accepted other) (a.load id t) live todo := by
  have loads := loads_load registered t
  generalize a.load id t = b at loads
  refine sound.edit loads.edits ?_ ?_ (loads.registry sound.registry registered reads)
    (fun isTracked => Or.inl (calm isTracked)) ?_
  · rw [loads.edits.image]
    exact sound.packed.load loads
  · intro other b isBuffer
    split at isBuffer
    · rename_i same
      subst same
      simpa [ignores] using notIgnored
    · exact sound.usable other b isBuffer
  · intro isTracked
    rw [loads.edits.config, loads.edits.image]
    exact (sound.content id isTracked).load (sound.registry.sound id) loads

/-- An id that was not in use is handed out. -/
structure HandsOut (id : Nat) (a b : Atlas) : Prop where
  unregistered : (a.slot id).isRegistered = false
  edits : Edits id a b
  slot : b.slot id = Slot.fresh
  bins : b.bins = a.bins
  distinct : b.freeIds.Nodup
  removed : ∀ other ∈ b.freeIds, other ≠ id ∧ other ∈ a.freeIds
  unused : ∀ other, b.nextId ≤ other → other ≠ id ∧ a.nextId ≤ other

theorem handsOut_of {left : List Nat} {later : Nat} (unregistered : (a.slot id).isRegistered = false)
    (bound : id < a.slots.size) (distinct : left.Nodup) (removed : ∀ other ∈ left, other ≠ id ∧ other ∈ a.freeIds)
    (unused : ∀ other, later ≤ other → other ≠ id ∧ a.nextId ≤ other) :
    HandsOut id a (({ a with freeIds := left, nextId := later }.modifySlot id fun _ => .fresh).setEntry id .blank) where
  unregistered := unregistered
  edits := { (edits_modifySlot a id fun _ => .fresh).trans (edits_setEntry _ id .blank) with }
  slot := slot_modifySlot_self bound _
  bins := rfl
  distinct := distinct
  removed := removed
  unused := unused

/-- An id is handed out unless all are taken. -/
theorem handsOut_register (registry : Registry accepted a.config.maxTextureId a.slots a.entries a.freeIds a.nextId) :
    a.register = (overflowId, a) ∨ HandsOut a.register.1 a a.register.2 := by
  unfold Atlas.register nextFree
  split
  · exact Or.inl rfl
  · rename_i id b found
    right
    split at found
    · rename_i rest isFree
      cases found
      have removed : (a.slot id).status = .removed := registry.removed id (by rw [isFree]; exact List.mem_cons_self)
      have distinct := registry.distinct
      rw [isFree, List.nodup_cons] at distinct
      show HandsOut id a _
      refine handsOut_of ?_ (lt_of_status (by rw [removed]; decide)) distinct.2 ?_ ?_
      · rw [Slot.isRegistered, removed]
        rfl
      · intro other member
        refine ⟨fun same => distinct.1 (same ▸ member), ?_⟩
        rw [isFree]
        exact List.mem_cons_of_mem id member
      · intro other beyond
        refine ⟨?_, beyond⟩
        rintro rfl
        have unused := registry.unused other beyond
        rw [show (a.slots.getD other {}).status = .removed from removed] at unused
        cases unused
    · split at found
      · rename_i isFree more
        cases found
        have unused : (a.slot a.nextId).status = .unused := registry.unused a.nextId (Nat.le_refl _)
        show HandsOut a.nextId a _
        refine handsOut_of ?_ (registry.slots_size ▸ more) registry.distinct ?_ ?_
        · rw [Slot.isRegistered, unused]
          rfl
        · intro other member
          rw [isFree] at member
          cases member
        · intro other beyond
          omega
      · cases found

theorem HandsOut.registry (handsOut : HandsOut id a b)
    (registry : Registry accepted a.config.maxTextureId a.slots a.entries a.freeIds a.nextId) :
    Registry accepted b.config.maxTextureId b.slots b.entries b.freeIds b.nextId := by
  have edits := handsOut.edits
  have fresh : b.slots.getD id {} = Slot.fresh := handsOut.slot
  rw [edits.config]
  refine registry.update edits.slots_size edits.entries_size edits.slotOf edits.entryOf (fun _ _ => rfl) ?_ ?_
    handsOut.distinct ?_ handsOut.unused
  · rw [fresh]
    exact Slot.sound_of_empty rfl rfl (by decide)
  · intro valid
    rw [fresh] at valid
    cases valid
  · intro other member
    obtain ⟨different, earlier⟩ := handsOut.removed other member
    rw [if_neg different]
    exact earlier

theorem Packed.handOut (packed : Packed a.placement? a.bins a.image.capacity) (handsOut : HandsOut id a b)
    (registry : Registry accepted a.config.maxTextureId a.slots a.entries a.freeIds a.nextId) :
    Packed b.placement? b.bins a.image.capacity := by
  have unplaced : a.placement? id = none := by
    have slotSound : (a.slot id).Sound (accepted id) := registry.sound id
    refine Option.not_isSome_iff_eq_none.mp fun placed => ?_
    have registered := slotSound.registered (slotSound.loaded placed)
    rw [handsOut.unregistered] at registered
    cases registered
  have same : b.placement? id = a.placement? id := by
    rw [unplaced, placement?, handsOut.slot]
    rfl
  rw [handsOut.bins, handsOut.edits.placement?_eq same]
  exact packed

theorem Sound.handOut (sound : Sound tracked accepted a live todo) (handsOut : HandsOut id a b) :
    Sound tracked accepted b live todo := by
  have edits := handsOut.edits
  have fresh := handsOut.slot
  refine sound.edit edits ?_ sound.usable (handsOut.registry sound.registry) ?_ ?_
  · rw [edits.image]
    exact sound.packed.handOut handsOut sound.registry
  · intro isTracked
    refine Or.inl (sound.steady.resolve_right fun valid => ?_)
    have registered := Slot.isRegistered_of_valid (valid id isTracked)
    rw [handsOut.unregistered] at registered
    cases registered
  · intro _
    rw [fresh]
    exact Content.of_empty rfl

theorem Sound.register (sound : Sound tracked accepted a live todo) :
    Sound tracked accepted a.register.2 live todo := by
  rcases handsOut_register sound.registry with taken | handsOut
  · rw [taken]
    exact sound
  · exact sound.handOut handsOut

theorem Sound.requestLayers (sound : Sound tracked accepted a live todo) (count : Nat) :
    Sound tracked accepted (a.requestLayers count) live todo := { sound with }

theorem Sound.requestRepack (sound : Sound tracked accepted a live todo) (mode : RepackMode)
    (valid : ∀ id, tracked id → (a.slot id).status = .valid) :
    Sound tracked accepted (a.requestRepack mode) live todo := { sound with steady := Or.inr valid }

/-- What setting a buffer for an id comes to. -/
inductive Sets (a : Atlas) (id : Nat) (buffer : PixelBuffer) : Atlas × Except DataError Unit → Prop where
  | ignored : a.ignores id = true → Sets a id buffer (a, .ok ())
  | refused (e : DataError) : Sets a id buffer (a, .error e)
  | rejected (e : DataError) : (a.slot id).isRegistered = true → Sets a id buffer (a.reject id, .error e)
  | loaded (t : Texture) : a.ignores id = false → (a.slot id).isRegistered = true → t.Reads buffer →
      sizeError? a.config id buffer.width buffer.height = none → Sets a id buffer (a.load id t, .ok ())

theorem sets_set (a : Atlas) (id width height pitch : Nat) (bytes : ByteArray) :
    Sets a id ⟨width, height, pitch, bytes⟩ (a.set id width height pitch bytes) := by
  unfold Atlas.set
  split
  · exact .ignored ‹_›
  · rename_i notIgnored
    split
    · exact .refused _
    · rename_i checked
      split
      · exact .refused _
      · split
        · exact .rejected _ (isRegistered_of_check checked)
        · rename_i small
          split
          · exact .refused _
          · rename_i read
            exact .loaded _ (Bool.eq_false_iff.mpr notIgnored) (isRegistered_of_check checked)
              (reads_of_textureOf (by omega) (by omega) read) small

end TextureLoom.Atlas
