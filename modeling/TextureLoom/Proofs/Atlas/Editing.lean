import TextureLoom.Proofs.Atlas.Invariant

set_option autoImplicit false

namespace TextureLoom.Atlas

section

variable (a : Atlas) (id : Nat) {other : Nat}

theorem slot_modifySlot (f : Slot → Slot) :
    (a.modifySlot id f).slot other = if other = id ∧ id < a.slots.size then f (a.slot id) else a.slot other := by
  simp only [slot, modifySlot, Array.getD_eq_getD_getElem?, Array.getElem?_modify]
  by_cases same : id = other
  · subst same
    by_cases bound : id < a.slots.size
    · simp [bound]
    · simp [bound]
  · simp [same, Ne.symm same]

theorem entries_setEntry (e : Entry) :
    (a.setEntry id e).entries[other]? = if other = id ∧ id < a.entries.size then some e else a.entries[other]? := by
  simp only [setEntry, Array.getElem?_setIfInBounds]
  by_cases same : id = other
  · subst same
    by_cases bound : id < a.entries.size
    · simp [bound]
    · simp [bound]
  · simp [same, Ne.symm same]

end

/-- Of a repack, only what it has of one id differs. -/
structure Repack.Edits (id : Nat) (before after : Repack) : Prop where
  image : after.image = before.image
  progress : after.progress = before.progress
  queue : ∀ count, before.queue.Sound count → after.queue.Sound count
  fewer : ∀ other p, after.places.get? other = some p → before.places.get? other = some p
  placeOf : ∀ other, other ≠ id → after.places.get? other = before.places.get? other
  waits : ∀ other, other ≠ id → before.queue.contains other = true → after.queue.contains other = true

/-- Of an atlas, only what it has of one id differs, apart from bins, pending ids and ids to hand out. -/
structure Edits (id : Nat) (before after : Atlas) : Prop where
  config : after.config = before.config
  alignment : after.alignment = before.alignment
  image : after.image = before.image
  tableBuffer : after.tableBuffer = before.tableBuffer
  retired : after.retired = before.retired
  repackRequest : after.repackRequest = before.repackRequest
  slots_size : after.slots.size = before.slots.size
  entries_size : after.entries.size = before.entries.size
  slotOf : ∀ other, other ≠ id → after.slot other = before.slot other
  entryOf : ∀ other : Nat, other ≠ id → after.entries[other]? = before.entries[other]?
  repack : ∀ r, after.repack = some r → ∃ old, before.repack = some old ∧ old.Edits id r

theorem Repack.Edits.refl (id : Nat) (r : Repack) : r.Edits id r :=
  ⟨rfl, rfl, fun _ sound => sound, fun _ _ found => found, fun _ _ => rfl, fun _ _ waits => waits⟩

theorem Repack.Edits.trans {id : Nat} {first second third : Repack} (earlier : first.Edits id second)
    (later : second.Edits id third) : first.Edits id third where
  image := later.image.trans earlier.image
  progress := later.progress.trans earlier.progress
  queue := fun count sound => later.queue count (earlier.queue count sound)
  fewer := fun other p found => earlier.fewer other p (later.fewer other p found)
  placeOf := fun other distinct => (later.placeOf other distinct).trans (earlier.placeOf other distinct)
  waits := fun other distinct waits => later.waits other distinct (earlier.waits other distinct waits)

namespace Edits

variable {id : Nat} {a b c : Atlas}

theorem refl (id : Nat) (a : Atlas) : Edits id a a :=
  ⟨rfl, rfl, rfl, rfl, rfl, rfl, rfl, rfl, fun _ _ => rfl, fun _ _ => rfl, fun r running => ⟨r, running, .refl id r⟩⟩

theorem trans (first : Edits id a b) (second : Edits id b c) : Edits id a c where
  config := second.config.trans first.config
  alignment := second.alignment.trans first.alignment
  image := second.image.trans first.image
  tableBuffer := second.tableBuffer.trans first.tableBuffer
  retired := second.retired.trans first.retired
  repackRequest := second.repackRequest.trans first.repackRequest
  slots_size := second.slots_size.trans first.slots_size
  entries_size := second.entries_size.trans first.entries_size
  slotOf := fun other distinct => (second.slotOf other distinct).trans (first.slotOf other distinct)
  entryOf := fun other distinct => (second.entryOf other distinct).trans (first.entryOf other distinct)
  repack := by
    intro r running
    obtain ⟨middle, isMiddle, later⟩ := second.repack r running
    obtain ⟨old, isOld, earlier⟩ := first.repack middle isMiddle
    exact ⟨old, isOld, earlier.trans later⟩

/-- The places are the same if that of the id is. -/
theorem placement?_eq (edits : Edits id a b) (same : b.placement? id = a.placement? id) :
    b.placement? = a.placement? := by
  funext other
  by_cases isId : other = id
  · exact isId ▸ same
  · rw [placement?, placement?, edits.slotOf other isId]

end Edits

section

variable (a : Atlas) (id : Nat)

theorem edits_modifySlot (f : Slot → Slot) : Edits id a (a.modifySlot id f) :=
  { Edits.refl id a with
    slots_size := Array.size_modify
    slotOf := fun other distinct => by rw [slot_modifySlot, if_neg fun both => distinct both.1] }

theorem edits_setEntry (e : Entry) : Edits id a (a.setEntry id e) :=
  { Edits.refl id a with
    entries_size := Array.size_setIfInBounds
    entryOf := fun other distinct => by rw [entries_setEntry, if_neg fun both => distinct both.1] }

theorem edits_showPlace : Edits id a (a.showPlace id) := by
  unfold showPlace
  split
  · exact edits_setEntry a id _
  · exact edits_setEntry a id _

theorem edits_releasePlace : Edits id a (a.releasePlace id) := by
  have edits := edits_modifySlot a id Slot.unplaced
  exact
    { Edits.refl id a with
      slots_size := edits.slots_size
      slotOf := edits.slotOf }

theorem edits_pushPending : Edits id a { a with pending := a.pending.push id } :=
  { Edits.refl id a with }

theorem edits_mapRepack {f : Repack → Repack} (edits : ∀ r : Repack, r.Edits id (f r)) :
    Edits id a { a with repack := a.repack.map f } :=
  { Edits.refl id a with
    repack := by
      intro r running
      obtain ⟨old, isOld, rfl⟩ := Option.map_eq_some_iff.mp running
      exact ⟨old, isOld, edits old⟩ }

theorem edits_leaveRepack : Edits id a (a.leaveRepack id) :=
  edits_mapRepack a id fun r =>
    { Repack.Edits.refl id r with
      queue := fun _ sound => sound.remove id
      waits := fun _ distinct waits => (Queue.contains_remove_of_ne r.queue distinct).trans waits }

theorem edits_dequeue : Edits id a (a.dequeue id) :=
  { edits_leaveRepack a id with }

theorem edits_unplan : Edits id a (a.unplan id) :=
  edits_mapRepack a id fun r =>
    { Repack.Edits.refl id r with
      queue := fun _ sound => sound.remove id
      fewer := fun _ _ found => get?_of_get?_erase found
      placeOf := fun _ distinct => Table.get?_erase_of_ne r.places distinct
      waits := fun _ distinct waits => (Queue.contains_remove_of_ne r.queue distinct).trans waits }

theorem edits_joinRepack : Edits id a (a.joinRepack id) := by
  apply edits_mapRepack a id
  intro r
  split
  · exact
      { Repack.Edits.refl id r with
        queue := fun _ sound => sound.push id
        waits := fun _ _ waits => Queue.contains_push.mpr (Or.inl waits) }
  · exact Repack.Edits.refl id r

end

variable {tracked : Nat → Prop} {accepted changed : Nat → Option PixelBuffer} {a b : Atlas} {live : Device}
  {todo : List Nat} {id : Nat}

theorem Repack.Sound.edit {count image : Nat} {retired : List Nat} {r after : Repack}
    (sound : r.Sound count image retired live) (edits : r.Edits id after) : after.Sound count image retired live where
  tracked := edits.image ▸ sound.tracked
  apart := edits.image ▸ sound.apart
  kept := edits.image ▸ sound.kept
  places := by
    rw [edits.image]
    exact sound.places.mono (Capacity.Le.refl _) edits.fewer
  queue := edits.queue count sound.queue

theorem Repack.Plans.edit {padding other : Nat} {t : Texture} {p : Placement} {r after : Repack}
    (plans : r.Plans padding live todo other t p) (edits : r.Edits id after) (distinct : other ≠ id) :
    after.Plans padding live todo other t p where
  planned := (edits.placeOf other distinct).trans plans.planned
  fits := plans.fits
  holds := by
    rw [edits.progress, edits.image]
    exact plans.holds.imp_left fun both => ⟨both.1, both.2.imp_right (edits.waits other distinct)⟩

theorem Content.of_empty {padding image : Nat} {repack : Option Repack} {s : Slot} (empty : s.texture = none) :
    Content padding image repack live todo id s where
  fits := by simp [empty]
  shown := by simp [empty]
  planned := by simp [empty]

theorem Content.edit {padding image other : Nat} {s : Slot}
    (content : Content padding image a.repack live todo other s) (edits : Edits id a b) (distinct : other ≠ id) :
    Content padding image b.repack live todo other s where
  fits := content.fits
  shown := content.shown
  planned := by
    intro r t running valid isTexture
    obtain ⟨old, isOld, follows⟩ := edits.repack r running
    obtain ⟨p, plans⟩ := content.planned old t isOld valid isTexture
    exact ⟨p, plans.edit follows distinct⟩

/-- A change of one id that keeps the places apart and the registry in order keeps all the rest. -/
theorem Sound.edit (sound : Sound tracked accepted a live todo) (edits : Edits id a b)
    (packed : Packed b.placement? b.bins b.image.capacity)
    (usable : ∀ other buffer, changed other = some buffer → other ≠ noId ∧ a.config.reservedCount ≤ other)
    (registry : Registry changed b.config.maxTextureId b.slots b.entries b.freeIds b.nextId)
    (steady : tracked id → Calm tracked a.repack a.repackRequest ∨ (b.slot id).status = .valid)
    (content : tracked id → Content b.config.padding b.image.handle b.repack live todo id (b.slot id)) :
    Sound tracked changed b live todo where
  image := edits.image ▸ sound.image
  retired := by
    rw [edits.retired, edits.image]
    exact sound.retired
  repack := by
    intro r running
    obtain ⟨old, isOld, follows⟩ := edits.repack r running
    rw [edits.config, edits.image, edits.retired]
    exact (sound.repack old isOld).edit follows
  table := by
    rw [edits.tableBuffer, edits.config]
    exact sound.table
  aligned := edits.alignment ▸ sound.aligned
  alignment_pos := edits.alignment ▸ sound.alignment_pos
  packed := packed
  usable := by
    rw [edits.config]
    exact usable
  registry := registry
  steady := by
    by_cases calm : Calm tracked a.repack a.repackRequest
    · refine Or.inl ⟨calm.all, ?_, edits.repackRequest.trans calm.unasked⟩
      rcases running : b.repack with _ | r
      · rfl
      · obtain ⟨old, isOld, _⟩ := edits.repack r running
        cases isOld.symm.trans calm.idle
    · apply Or.inr
      intro other isTracked
      by_cases same : other = id
      · subst same
        exact (steady isTracked).resolve_left calm
      · rw [edits.slotOf other same]
        exact sound.steady.resolve_left calm other isTracked
  content := by
    intro other isTracked
    by_cases same : other = id
    · subst same
      exact content isTracked
    · rw [edits.slotOf other same, edits.config, edits.image]
      exact (sound.content other isTracked).edit edits same

end TextureLoom.Atlas
