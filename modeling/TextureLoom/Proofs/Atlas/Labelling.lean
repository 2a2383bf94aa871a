import TextureLoom.Proofs.Atlas.Filling
import TextureLoom.Proofs.Atlas.Serving

set_option autoImplicit false

namespace TextureLoom.Atlas

variable {accepted changed : Nat → Option PixelBuffer} {a b c : Atlas} {id : Nat} {s : Slot} {e : Entry} {side : Nat}

/-- The row that an id has in an atlas of a side, by where the id stands. -/
inductive Labels (side : Nat) (s : Slot) : Entry → Prop where
  /-- The id is not in use. -/
  | vacant : s.isRegistered = false → s.shown = false → Labels side s .blank
  /-- There is no data. -/
  | empty : s.status = .registered → s.texture = none → s.shown = false → Labels side s .blank
  /-- There is no data, and the last was refused before it was cleared. -/
  | marked : s.status = .registered → s.texture = none → s.shown = false → s.refused = true → Labels side s .tooLarge
  | refused : s.status = .tooLarge → s.texture = none → s.shown = false → s.refused = true → Labels side s .tooLarge
  /-- There is data, and none was uploaded to the place, if there is one. -/
  | waiting : s.status = .pendingUpload → s.texture.isSome → s.shown = false → Labels side s .pending
  /-- The id was uploaded to the place that it has, maybe with earlier data. -/
  | shown {p : Placement} : s.status = .pendingUpload ∨ s.status = .valid → s.texture.isSome → s.place = some p →
      s.shown = true → Labels side s (.ofPlacement p side)

namespace Labels

theorem unshown (labels : Labels side s e) (unplaced : s.place = none) : s.shown = false := by
  cases labels with
  | shown _ _ placed _ => cases unplaced.symm.trans placed
  | _ => assumption

/-- Only the row of an id that was uploaded depends on the side. -/
theorem of_unshown {other : Nat} (labels : Labels side s e) (unshown : s.shown = false) : Labels other s e := by
  cases labels with
  | vacant unused _ => exact .vacant unused unshown
  | empty status none _ => exact .empty status none unshown
  | marked status none _ refused => exact .marked status none unshown refused
  | refused status none _ refused => exact .refused status none unshown refused
  | waiting status texture _ => exact .waiting status texture unshown
  | shown _ _ _ isShown => cases isShown.symm.trans unshown

theorem placed (labels : Labels side s e) (isShown : s.shown = true) : ∃ p, s.place = some p ∧ s.texture.isSome ∧
    (s.status = .pendingUpload ∨ s.status = .valid) ∧ e = .ofPlacement p side := by
  cases labels with
  | shown status texture placed _ => exact ⟨_, placed, texture, status, rfl⟩
  | vacant _ unshown => cases isShown.symm.trans unshown
  | empty _ _ unshown => cases isShown.symm.trans unshown
  | marked _ _ unshown _ => cases isShown.symm.trans unshown
  | refused _ _ unshown _ => cases isShown.symm.trans unshown
  | waiting _ _ unshown => cases isShown.symm.trans unshown

/-- An id with data waits, or it was uploaded. -/
theorem of_texture (labels : Labels side s e) (registered : s.isRegistered = true) (texture : s.texture.isSome) :
    s.shown = false ∧ s.status = .pendingUpload ∧ e = .pending ∨ s.shown = true := by
  cases labels with
  | vacant unused _ => cases registered.symm.trans unused
  | empty _ none _ => cases none ▸ texture
  | marked _ none _ _ => cases none ▸ texture
  | refused _ none _ _ => cases none ▸ texture
  | waiting status _ unshown => exact Or.inl ⟨unshown, status, rfl⟩
  | shown _ _ _ isShown => exact Or.inr isShown

/-- An id in use that has no data. -/
theorem of_empty (labels : Labels side s e) (registered : s.isRegistered = true) (none : s.texture = none) :
    s.shown = false ∧ (s.status = .registered ∨ s.status = .tooLarge ∧ s.refused = true) := by
  cases labels with
  | vacant unused _ => cases registered.symm.trans unused
  | empty status _ unshown => exact ⟨unshown, Or.inl status⟩
  | marked status _ unshown _ => exact ⟨unshown, Or.inl status⟩
  | refused status _ unshown refused => exact ⟨unshown, Or.inr ⟨status, refused⟩⟩
  | waiting _ texture _ => cases none ▸ texture
  | shown _ texture _ _ => cases none ▸ texture

end Labels

/-- The row of an id tells how its slot stands. -/
def LabelledAt (id : Nat) (a : Atlas) : Prop := ∃ e, a.entries[id]? = some e ∧ Labels a.side (a.slot id) e

/-- What a call leaves of the row of an id. -/
theorem LabelledAt.restates (labelled : a.LabelledAt id) (sound : (a.slot id).Sound (accepted id))
    (restates : Restates id a b) (side : b.side = a.side) : b.LabelledAt id := by
  obtain ⟨e, row, labels⟩ := labelled
  rw [LabelledAt, side]
  cases restates with
  | kept slot same =>
    rw [slot, same]
    exact ⟨e, row, labels⟩
  | handedOut _ _ slot row =>
    rw [slot]
    exact ⟨.blank, row, .empty rfl rfl rfl⟩
  | rejected _ slot row =>
    rw [slot]
    exact ⟨.tooLarge, row, .refused rfl rfl rfl rfl⟩
  | cleared _ slot row =>
    rw [slot]
    exact ⟨.blank, row, .empty rfl rfl rfl⟩
  | discarded _ slot row =>
    rw [slot]
    exact ⟨.blank, row, .vacant rfl rfl⟩
  | reloaded t registered placed slot same =>
    rw [slot, same]
    refine ⟨e, row, ?_⟩
    rcases labels.of_texture registered (sound.loaded placed) with ⟨unshown, _, rfl⟩ | isShown
    · exact .waiting rfl rfl unshown
    · obtain ⟨p, isPlaced, _, _, rfl⟩ := labels.placed isShown
      exact .shown (Or.inl rfl) rfl isPlaced isShown
  | loaded t _ isBefore slot row =>
    rw [slot]
    refine ⟨.pending, row, .waiting rfl rfl ?_⟩
    rcases isBefore with rfl | ⟨rfl, unplaced⟩
    · rfl
    · exact labels.unshown unplaced

/-- What recording does to an id and its row, once a finished repack is shown. -/
inductive Relabels (id : Nat) (a b : Atlas) : Prop where
  /-- If the image grows, the id was not uploaded. -/
  | kept : b.slot id = a.slot id → b.entries[id]? = a.entries[id]? →
      b.side = a.side ∨ (a.slot id).shown = false ∨ (a.slot id).place = none → Relabels id a b
  /-- The image grows, and the row points at the place in it. -/
  | moved {p : Placement} : b.slot id = a.slot id → (a.slot id).shown = true → (a.slot id).place = some p →
      b.entries[id]? = some (.ofPlacement p b.side) → Relabels id a b
  | placed (p : Placement) : (a.slot id).texture.isSome → (a.slot id).place = none →
      b.slot id = { a.slot id with place := some p } → b.entries[id]? = a.entries[id]? → Relabels id a b
  | uploaded {p : Placement} : (a.slot id).texture.isSome → (a.slot id).place = some p →
      b.slot id = (a.slot id).uploaded → b.entries[id]? = some (.ofPlacement p b.side) → Relabels id a b

theorem LabelledAt.relabels (labelled : a.LabelledAt id) (sound : (a.slot id).Sound (accepted id))
    (relabels : Relabels id a b) : b.LabelledAt id := by
  obtain ⟨e, row, labels⟩ := labelled
  rw [LabelledAt]
  cases relabels with
  | kept slot same sameSide =>
    rw [slot, same]
    refine ⟨e, row, ?_⟩
    rcases sameSide with sameSide | unshown | unplaced
    · rw [sameSide]
      exact labels
    · exact labels.of_unshown unshown
    · exact labels.of_unshown (labels.unshown unplaced)
  | @moved p slot isShown placed row =>
    obtain ⟨_, _, texture, status, _⟩ := labels.placed isShown
    rw [slot]
    exact ⟨_, row, .shown status texture placed isShown⟩
  | placed p texture unplaced slot same =>
    rw [slot, same]
    refine ⟨e, row, ?_⟩
    rcases labels.of_texture (sound.registered texture) texture with ⟨unshown, status, rfl⟩ | isShown
    · exact .waiting status texture unshown
    · cases isShown.symm.trans (labels.unshown unplaced)
  | uploaded texture placed slot row =>
    rw [slot]
    exact ⟨_, row, .shown (Or.inr rfl) texture placed rfl⟩

theorem entries_showPlace_self {p : Placement} (placed : (a.slot id).place = some p) (bound : id < a.entries.size) :
    (a.showPlace id).entries[id]? = some (.ofPlacement p a.side) := by
  have isPlaced : a.placement? id = some p := placed
  rw [showPlace, isPlaced]
  exact (entries_setEntry a id _).trans (if_pos ⟨rfl, bound⟩)

/-- What an id has of slot and row is the same, and so is the image. -/
structure SameRow (id : Nat) (a b : Atlas) : Prop where
  slot : b.slot id = a.slot id
  row : b.entries[id]? = a.entries[id]?
  image : b.image = a.image
  entries_size : b.entries.size = a.entries.size
  slots_size : b.slots.size = a.slots.size

namespace SameRow

theorem refl (id : Nat) (a : Atlas) : SameRow id a a := ⟨rfl, rfl, rfl, rfl, rfl⟩

theorem trans (first : SameRow id a b) (second : SameRow id b c) : SameRow id a c :=
  ⟨second.slot.trans first.slot, second.row.trans first.row, second.image.trans first.image,
    second.entries_size.trans first.entries_size, second.slots_size.trans first.slots_size⟩

theorem of_edits {other : Nat} (edits : Edits other a b) (distinct : other ≠ id) : SameRow id a b :=
  ⟨edits.slotOf id distinct.symm, edits.entryOf id distinct.symm, edits.image, edits.entries_size, edits.slots_size⟩

theorem sameSide (same : SameRow id a b) : b.side = a.side := by
  rw [Atlas.side, Atlas.side, same.image]

end SameRow

/-- Refreshing the rows points that of an uploaded id at its place, and leaves the others as they are. -/
theorem refreshEntries_at (a : Atlas) (id : Nat) (sizes : a.slots.size = a.entries.size) :
    SameRow id a (Frame.refreshEntries a) ∧ ((a.slot id).shown = false ∨ (a.slot id).place = none) ∨
    (Frame.refreshEntries a).slot id = a.slot id ∧ ∃ p, (a.slot id).shown = true ∧ (a.slot id).place = some p ∧
      (Frame.refreshEntries a).entries[id]? = some (.ofPlacement p a.side) := by
  have others : ∀ x i, i ≠ id →
      SameRow id x (if (x.slot i).shown ∧ (x.placement? i).isSome then x.showPlace i else x) := by
    intro x i distinct
    split
    · exact .of_edits (edits_showPlace x i) distinct
    · exact .refl id x
  rw [Frame.refreshEntries]
  by_cases bound : id < a.slots.size
  · obtain ⟨x, before, after⟩ := foldl_at (SameRow id) (.refl id) (fun _ _ _ first second => first.trans second) others
      List.nodup_range (List.mem_range.mpr bound) a
    by_cases isShown : (x.slot id).shown = true ∧ (x.placement? id).isSome
    · rw [if_pos isShown] at after
      obtain ⟨p, placed⟩ := Option.isSome_iff_exists.mp isShown.2
      rw [placement?, before.slot] at placed
      rw [before.slot] at isShown
      refine Or.inr ⟨after.slot.trans ((slot_showPlace x id id).trans before.slot), p, isShown.1, placed, ?_⟩
      rw [after.row, ← before.sameSide]
      refine entries_showPlace_self ?_ ?_
      · rw [before.slot, placed]
      · rw [before.entries_size, ← sizes]
        exact bound
    · rw [if_neg isShown] at after
      rw [placement?, before.slot] at isShown
      refine Or.inl ⟨before.trans after, ?_⟩
      rcases placed : (a.slot id).place with _ | p
      · exact Or.inr rfl
      · rw [placed] at isShown
        exact Or.inl (Bool.eq_false_iff.mpr fun shown => isShown ⟨shown, rfl⟩)
  · have outside : id ∉ List.range a.slots.size := fun member => bound (List.mem_range.mp member)
    refine Or.inl ⟨foldl_others (SameRow id) (.refl id) (fun _ _ _ first second => first.trans second) others outside a,
      Or.inl ?_⟩
    rw [slot_of_le (Nat.not_lt.mp bound)]

namespace Frame

variable {f g next : Frame}

theorem relabels_enlarged {capacity : Capacity} {handle : Nat} {device : Device}
    (sizes : f.atlas.slots.size = f.atlas.entries.size) (id : Nat) :
    Relabels id f.atlas (f.enlarged capacity handle device).atlas := by
  let image := (copyCommands f.atlas.image ⟨handle, capacity, .undefined⟩).2
  let before : Atlas := { f.atlas with image, retired := f.atlas.retired ++ [f.atlas.image.handle] }
  have sameSide : (refreshEntries before).image = image := by
    obtain ⟨_, _, refreshed, _⟩ := refreshEntries_eq before
    rw [refreshed]
  rcases refreshEntries_at before id sizes with ⟨same, unshown⟩ | ⟨slot, p, isShown, placed, row⟩
  · exact .kept same.slot same.row (Or.inr unshown)
  · refine .moved slot isShown placed (row.trans ?_)
    show _ = some (Entry.ofPlacement p (refreshEntries before).image.capacity.side)
    rw [sameSide]
    rfl

/-- What work of a flush does to any id and its row. -/
theorem Work.relabels (work : Work f g)
    (registry : Registry accepted f.atlas.config.maxTextureId f.atlas.slots f.atlas.entries f.atlas.freeIds
      f.atlas.nextId) (id : Nat) : Relabels id f.atlas g.atlas := by
  have sizes := registry.sizes
  have inside : ∀ other t, (f.atlas.slot other).texture = some t → other < f.atlas.slots.size := by
    intro other t texture
    have slotSound : (f.atlas.slot other).Sound (accepted other) := registry.sound other
    exact lt_of_isRegistered (slotSound.registered (by rw [texture]; rfl))
  cases work with
  | announce event =>
    rw [announce_atlas]
    exact .kept rfl rfl (Or.inl rfl)
  | enlarge grows created => exact relabels_enlarged sizes id
  | @place b other t texture unplaced found =>
    obtain ⟨p, situates⟩ := situates_of_place? found
    by_cases same : id = other
    · subst same
      refine .placed p (by rw [texture]; rfl) unplaced (situates.slot (inside id t texture)) ?_
      obtain ⟨_, _, rfl⟩ := Option.map_eq_some_iff.mp found
      rfl
    · have row : SameRow id f.atlas b := .of_edits situates.edits (Ne.symm same)
      exact .kept row.slot row.row (Or.inl row.sameSide)
  | @upload other start t p next texture placed staged =>
    have turned : (next.turnLive .transferTarget).atlas = { f.atlas with
        image := (f.atlas.image.turn .transferTarget).1 } := by
      rw [← atlas_of_stage staged]
      rfl
    have side : (next.turnLive .transferTarget).atlas.side = f.atlas.side := by
      rw [turned, Atlas.side, OwnedImage.turn_capacity]
      rfl
    show Relabels id f.atlas (((next.turnLive .transferTarget).atlas.modifySlot other Slot.uploaded).showPlace other)
    have edits : Edits other (next.turnLive .transferTarget).atlas
        (((next.turnLive .transferTarget).atlas.modifySlot other Slot.uploaded).showPlace other) :=
      (edits_modifySlot _ other Slot.uploaded).trans (edits_showPlace _ other)
    by_cases same : id = other
    · subst same
      have bound : id < (next.turnLive .transferTarget).atlas.slots.size := by
        rw [turned]
        exact inside id t texture
      have slotOf := slot_modifySlot_self bound Slot.uploaded
      refine .uploaded (p := p) (by rw [texture]; rfl) placed ?_ ?_
      · rw [slot_showPlace, slotOf, turned]
        rfl
      · have shownSide : (((next.turnLive .transferTarget).atlas.modifySlot id Slot.uploaded).showPlace id).side =
            ((next.turnLive .transferTarget).atlas.modifySlot id Slot.uploaded).side := by
          rw [Atlas.side, Atlas.side, (edits_showPlace _ id).image]
        rw [shownSide]
        refine entries_showPlace_self ?_ ?_
        · rw [slotOf, turned]
          exact placed
        · show id < (next.turnLive .transferTarget).atlas.entries.size
          rw [turned]
          exact sizes ▸ inside id t texture
    · have row := SameRow.of_edits edits (Ne.symm same)
      refine .kept (row.slot.trans ?_) (row.row.trans ?_) (Or.inl (row.sameSide.trans side))
      · rw [turned]
        rfl
      · rw [turned]
  | uploadPlanned running texture planned staged =>
    simp only [record, turnRepack_atlas, atlas_of_stage staged]
    exact .kept rfl rfl (Or.inl rfl)
  | _ => exact .kept rfl rfl (Or.inl rfl)

end Frame

end TextureLoom.Atlas
