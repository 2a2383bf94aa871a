import TextureLoom.Proofs.Atlas.Labelling

set_option autoImplicit false

namespace TextureLoom.Atlas

variable {accepted changed : Nat → Option PixelBuffer} {a b : Atlas} {id : Nat} {s : Slot} {e : Entry} {side : Nat}
  {places : Table Nat Placement} {r : Repack}

theorem Labels.of_vacant (labels : Labels side s e) (unused : s.isRegistered = false) : s.shown = false ∧ e = .blank := by
  cases labels with
  | vacant _ unshown => exact ⟨unshown, rfl⟩
  | empty status _ _ => simp [Slot.isRegistered, status] at unused
  | marked status _ _ _ => simp [Slot.isRegistered, status] at unused
  | refused status _ _ _ => simp [Slot.isRegistered, status] at unused
  | waiting status _ _ => simp [Slot.isRegistered, status] at unused
  | shown status _ _ _ => rcases status with status | status <;> simp [Slot.isRegistered, status] at unused

theorem LabelledAt.of_sameRow (labelled : a.LabelledAt id) (same : SameRow id a b) : b.LabelledAt id := by
  rw [LabelledAt, same.slot, same.row, same.sameSide]
  exact labelled

/-- Showing the image of a repack gives an id the row of how it stands then, whatever the side was before. -/
theorem labelledAt_settle (sizes : a.slots.size = a.entries.size) (bound : id < a.slots.size)
    (row : a.entries[id]? = some e) (labels : Labels side (a.slot id) e) : (settle places a id).LabelledAt id := by
  have inside : id < a.entries.size := sizes ▸ bound
  have rowOf : ∀ (x : Atlas) (e : Entry), x.entries = a.entries → (x.setEntry id e).entries[id]? = some e := by
    intro x e same
    rw [entries_setEntry, same, if_pos ⟨rfl, inside⟩]
  by_cases registered : (a.slot id).isRegistered = true
  · simp only [settle, registered, ↓reduceIte]
    split
    · rename_i t p texture planned
      have slotOf := slot_modifySlot_self bound fun s => { s with place := some p }.uploaded
      refine ⟨.ofPlacement p _, entries_showPlace_self (by rw [slotOf]; rfl) inside, ?_⟩
      rw [slot_showPlace, slotOf, Atlas.side, Atlas.side, (edits_showPlace _ id).image]
      exact .shown (Or.inr rfl) (by simp only [Slot.uploaded, texture, Option.isSome_some]) rfl rfl
    · rename_i t texture unplanned
      have slotOf := slot_modifySlot_self bound fun s => { s.unplaced with status := .pendingUpload }
      refine ⟨.pending, rowOf _ _ rfl, ?_⟩
      rw [slot_setEntry]
      show Labels _ ((a.modifySlot id fun s => { s.unplaced with status := .pendingUpload }).slot id) _
      rw [slotOf]
      exact .waiting rfl (by simp only [Slot.unplaced, texture, Option.isSome_some]) rfl
    · rename_i texture
      have slotOf := slot_modifySlot_self bound Slot.unplaced
      refine ⟨(a.slot id).idleEntry, rowOf _ _ rfl, ?_⟩
      rw [slot_setEntry, slotOf, Slot.idleEntry]
      obtain ⟨_, status⟩ := labels.of_empty registered texture
      split
      · rename_i refused
        rcases status with status | ⟨status, _⟩
        · exact .marked status texture rfl refused
        · exact .refused status texture rfl refused
      · rename_i notRefused
        exact .empty (status.resolve_right fun both => notRefused both.2) texture rfl
  · have unchanged : settle places a id = a := by
      simp only [settle, registered, Bool.false_eq_true, ↓reduceIte]
    rw [unchanged]
    obtain ⟨unshown, _⟩ := labels.of_vacant (Bool.eq_false_iff.mpr registered)
    exact ⟨e, row, labels.of_unshown unshown⟩

section

variable (a r)

/-- The atlas that shows the image of a repack, its ids as they were. -/
def showing : Atlas := { a with image := r.image, retired := a.retired ++ [a.image.handle], repack := none }

/-- Of what showing the image of a repack does, one step is about an id that there is, and none about any other. -/
theorem adopt_at (id : Nat) : ∃ x, SameRow id (a.showing r) x ∧
    SameRow id (if id < a.slots.size then settle r.places x id else x) (a.adopt r) := by
  have others : ∀ (x : Atlas) (i : Nat), i ≠ id → SameRow id x (settle r.places x i) :=
    fun x i distinct => .of_edits (edits_settle r.places x i) distinct
  have shown : ∀ x, SameRow id x ((List.range a.slots.size).foldl (settle r.places) (a.showing r)) →
      SameRow id x (a.adopt r) := fun x same => ⟨same.slot, same.row, same.image, same.entries_size, same.slots_size⟩
  by_cases bound : id < a.slots.size
  · obtain ⟨x, before, after⟩ := foldl_at (SameRow id) (.refl id) (fun _ _ _ first second => first.trans second) others
      List.nodup_range (List.mem_range.mpr bound) (a.showing r)
    refine ⟨x, before, ?_⟩
    rw [if_pos bound]
    exact shown _ after
  · have outside : id ∉ List.range a.slots.size := fun member => bound (List.mem_range.mp member)
    have same := foldl_others (SameRow id) (.refl id) (fun _ _ _ first second => first.trans second) others outside
      (a.showing r)
    refine ⟨_, .refl id _, ?_⟩
    rw [if_neg bound]
    exact shown _ same

end

theorem LabelledAt.adopt (labelled : a.LabelledAt id) (sizes : a.slots.size = a.entries.size) (r : Repack) :
    (a.adopt r).LabelledAt id := by
  obtain ⟨e, row, labels⟩ := labelled
  have bound : id < a.slots.size := sizes ▸ (Array.getElem?_eq_some_iff.mp row).1
  obtain ⟨x, before, after⟩ := adopt_at a r id
  rw [if_pos bound] at after
  have labelsAt : Labels a.side (x.slot id) e := before.slot ▸ labels
  refine LabelledAt.of_sameRow (labelledAt_settle ?_ ?_ (before.row.trans row) labelsAt) after
  · rw [before.slots_size, before.entries_size]
    exact sizes
  · rw [before.slots_size]
    exact bound

/-- An id without data gets the row of what became of its last data. -/
theorem adopt_of_empty (sizes : a.slots.size = a.entries.size) (registered : (a.slot id).isRegistered = true)
    (none : (a.slot id).texture = none) (r : Repack) : (a.adopt r).slot id = (a.slot id).unplaced ∧
      (a.adopt r).entries[id]? = some (a.slot id).idleEntry := by
  have bound := lt_of_isRegistered registered
  obtain ⟨x, before, after⟩ := adopt_at a r id
  have slotOf : x.slot id = a.slot id := before.slot
  have inside : id < x.slots.size := before.slots_size.symm ▸ bound
  have settled : settle r.places x id = (x.modifySlot id Slot.unplaced).setEntry id (a.slot id).idleEntry := by
    simp only [settle, slotOf, registered, none, ↓reduceIte]
  rw [if_pos bound, settled] at after
  refine ⟨after.slot.trans ?_, after.row.trans ?_⟩
  · rw [slot_setEntry, slot_modifySlot_self inside, slotOf]
  · have size : x.entries.size = a.entries.size := before.entries_size
    have row : id < x.entries.size := by
      rw [size, ← sizes]
      exact bound
    exact (entries_setEntry _ id _).trans (if_pos ⟨rfl, row⟩)

/-- Nothing changes for an id that is not in use. -/
theorem adopt_of_vacant (unused : (a.slot id).isRegistered = false) (r : Repack) :
    (a.adopt r).slot id = a.slot id ∧ (a.adopt r).entries[id]? = a.entries[id]? := by
  obtain ⟨x, before, after⟩ := adopt_at a r id
  have slotOf : x.slot id = a.slot id := before.slot
  have unchanged : settle r.places x id = x := by
    simp only [settle, slotOf, unused, Bool.false_eq_true, ↓reduceIte]
  rw [unchanged, ite_self] at after
  exact ⟨after.slot.trans before.slot, after.row.trans before.row⟩

theorem layerRequest_showPlace (a : Atlas) (id : Nat) : (a.showPlace id).layerRequest = a.layerRequest := by
  unfold showPlace
  split <;> rfl

theorem adopt_keeps (a : Atlas) (r : Repack) : (a.adopt r).nextId = a.nextId ∧ (a.adopt r).freeIds = a.freeIds ∧
    (a.adopt r).layerRequest = a.layerRequest := by
  let Keeps (x : Atlas) := x.nextId = a.nextId ∧ x.freeIds = a.freeIds ∧ x.layerRequest = a.layerRequest
  have kept : Keeps ((List.range a.slots.size).foldl (settle r.places) (a.showing r)) := by
    refine List.foldlRecOn (motive := Keeps) (List.range a.slots.size) (settle r.places) (b := a.showing r)
      ⟨rfl, rfl, rfl⟩ fun x before i _ => ?_
    have shown : ∀ y : Atlas, Keeps y → Keeps (y.showPlace i) := by
      intro y kept
      obtain ⟨_, freeIds, nextId, _⟩ := showPlace_keeps y i
      exact ⟨nextId.trans kept.1, freeIds.trans kept.2.1, (layerRequest_showPlace y i).trans kept.2.2⟩
    simp only [settle]
    split
    · split
      · exact shown _ before
      · exact before
      · exact before
    · exact before
  exact kept

theorem FlushStep.numbers (step : FlushStep a b) : b.nextId = a.nextId ∧ b.freeIds = a.freeIds := by
  cases step with
  | adopt _ _ => exact ⟨(adopt_keeps a _).1, (adopt_keeps a _).2.1⟩
  | enlarge handle grows =>
    rw [enlarged_eq]
    exact ⟨rfl, rfl⟩
  | place _ _ found =>
    obtain ⟨_, situates⟩ := situates_of_place? found
    exact ⟨situates.nextId, situates.freeIds⟩
  | reveal _ _ => exact ⟨(showPlace_keeps _ _).2.2.1, (showPlace_keeps _ _).2.1⟩
  | _ => exact ⟨rfl, rfl⟩

theorem Serves.nextId (serves : Serves a b) : a.nextId ≤ b.nextId := by
  cases serves with
  | handOut _ more _ => exact more
  | reject registered => exact Nat.le_of_eq (empties_reject registered).nextId.symm
  | clear registered => exact Nat.le_of_eq (empties_clear registered).nextId.symm
  | remove _ registered => exact Nat.le_of_eq (empties_discard registered).nextId.symm
  | load t registered => exact Nat.le_of_eq (loads_load registered t).nextId.symm
  | _ => exact Nat.le_refl _

theorem Serves.keeps (serves : Serves a b) : b.config = a.config ∧ b.image = a.image := by
  cases serves with
  | handOut _ _ handsOut => exact ⟨handsOut.edits.config, handsOut.edits.image⟩
  | reject registered => exact ⟨(empties_reject registered).edits.config, (empties_reject registered).edits.image⟩
  | clear registered => exact ⟨(empties_clear registered).edits.config, (empties_clear registered).edits.image⟩
  | remove _ registered => exact ⟨(empties_discard registered).edits.config, (empties_discard registered).edits.image⟩
  | load t registered => exact ⟨(loads_load registered t).edits.config, (loads_load registered t).edits.image⟩
  | _ => exact ⟨rfl, rfl⟩

/-- Reserved ids are not in use, and their rows are as they were at the start. -/
structure Reserves (a : Atlas) : Prop where
  unused : ∀ id < a.config.reservedCount, a.slot id = {}
  rows : ∀ id < a.config.reservedCount, a.entries[id]? = (initialEntries a.config)[id]?
  next : a.config.reservedCount ≤ a.nextId

/-- The row of each id tells how the id stands, but for the reserved ones. -/
structure Labelled (accepted : Nat → Option PixelBuffer) (a : Atlas) : Prop extends Queued accepted a where
  rows : ∀ id, a.config.reservedCount ≤ id → id < a.config.maxTextureId → a.LabelledAt id
  reserves : a.Reserves

namespace Reserves

theorem keep (reserves : a.Reserves) (config : b.config = a.config)
    (same : ∀ id < a.config.reservedCount, b.slot id = a.slot id ∧ b.entries[id]? = a.entries[id]?)
    (more : a.nextId ≤ b.nextId) : b.Reserves := by
  rw [← config] at same
  refine ⟨fun id isReserved => ?_, fun id isReserved => ?_, ?_⟩
  · rw [(same id isReserved).1]
    exact reserves.unused id (config ▸ isReserved)
  · rw [(same id isReserved).2, config]
    exact reserves.rows id (config ▸ isReserved)
  · rw [config]
    exact Nat.le_trans reserves.next more

theorem vacant (reserves : a.Reserves) (isReserved : id < a.config.reservedCount) :
    (a.slot id).isRegistered = false := by
  rw [Slot.isRegistered, reserves.unused id isReserved]
  rfl

/-- An action that is served is not about a reserved id. -/
theorem restates (reserves : a.Reserves)
    (registry : Registry accepted a.config.maxTextureId a.slots a.entries a.freeIds a.nextId)
    (isReserved : id < a.config.reservedCount) (restates : Restates id a b) :
    b.slot id = a.slot id ∧ b.entries[id]? = a.entries[id]? := by
  have vacant := reserves.vacant isReserved
  cases restates with
  | kept slot row => exact ⟨slot, row⟩
  | handedOut isNext _ _ _ =>
    rcases isNext with isFree | rfl
    · have unused : (a.slots.getD id {}).status = .unused := congrArg Slot.status (reserves.unused id isReserved)
      cases (registry.removed id isFree).symm.trans unused
    · exact absurd reserves.next (Nat.not_le.mpr isReserved)
  | rejected registered _ _ => cases registered.symm.trans vacant
  | cleared registered _ _ => cases registered.symm.trans vacant
  | discarded registered _ _ => cases registered.symm.trans vacant
  | reloaded _ registered _ _ _ => cases registered.symm.trans vacant
  | loaded _ registered _ _ _ => cases registered.symm.trans vacant

theorem relabels (reserves : a.Reserves) (sound : (a.slot id).Sound (accepted id))
    (isReserved : id < a.config.reservedCount) (relabels : Relabels id a b) :
    b.slot id = a.slot id ∧ b.entries[id]? = a.entries[id]? := by
  have vacant := reserves.vacant isReserved
  cases relabels with
  | kept slot row _ => exact ⟨slot, row⟩
  | moved _ _ placed _ => cases (sound.registered (sound.loaded (by rw [placed]; rfl))).symm.trans vacant
  | placed _ texture _ _ _ => cases (sound.registered texture).symm.trans vacant
  | uploaded texture _ _ _ => cases (sound.registered texture).symm.trans vacant

end Reserves

namespace Labelled

variable {w : World} {f g : Frame}

/-- An id is reserved or unknown, or its row tells how it stands. -/
theorem slot_cases (labelled : Labelled accepted a) (id : Nat) : a.slot id = {} ∨ a.LabelledAt id := by
  by_cases usable : a.config.reservedCount ≤ id
  · by_cases inside : id < a.config.maxTextureId
    · exact Or.inr (labelled.rows id usable inside)
    · refine Or.inl (slot_of_le ?_)
      rw [labelled.registry.slots_size]
      exact Nat.not_lt.mp inside
  · exact Or.inl (labelled.reserves.unused id (Nat.not_le.mp usable))

theorem labelledAt (labelled : Labelled accepted a) (id : Nat) (used : (a.slot id).status ≠ .unused) : a.LabelledAt id := by
  refine (labelled.slot_cases id).resolve_left fun unused => used ?_
  rw [unused]

theorem serves (labelled : Labelled accepted a) (serves : Serves a b) (queued : Queued changed b) :
    Labelled changed b := by
  obtain ⟨config, image⟩ := serves.keeps
  have restates := serves.restates labelled.registry.sizes
  refine ⟨queued, fun id usable inside => ?_, ?_⟩
  · rw [config] at usable inside
    exact (labelled.rows id usable inside).restates (labelled.registry.sound id) (restates id)
      (by rw [Atlas.side, Atlas.side, image])
  · exact labelled.reserves.keep config
      (fun id isReserved => labelled.reserves.restates labelled.registry isReserved (restates id)) serves.nextId

theorem adopt (labelled : Labelled accepted a) (queued : Queued accepted (a.adopt r)) :
    Labelled accepted (a.adopt r) := by
  have config := (fixes_adopt a r).config
  refine ⟨queued, fun id usable inside => ?_, ?_⟩
  · rw [config] at usable inside
    exact (labelled.rows id usable inside).adopt labelled.registry.sizes r
  · exact labelled.reserves.keep config
      (fun id isReserved => adopt_of_vacant (labelled.reserves.vacant isReserved) r) (Nat.le_of_eq (adopt_keeps a r).1.symm)

theorem adoptReady (labelled : Labelled accepted f.atlas) : Labelled accepted f.adoptReady.atlas := by
  have queued := labelled.toQueued.leads f.leads_adoptReady
  rcases f.adoptReady_cases with ⟨r, _, _, isAtlas⟩ | ⟨_, isAtlas⟩
  · rw [isAtlas] at queued ⊢
    exact labelled.adopt queued
  · rw [isAtlas]
    exact labelled

theorem nextId_leads (leads : f.Leads g) : g.atlas.nextId = f.atlas.nextId := by
  rw [Frame.Leads] at leads
  generalize g.atlas = b at leads
  induction leads with
  | refl => rfl
  | tail _ step before => exact step.numbers.1.trans before

theorem relabels (labelled : Labelled accepted f.atlas) (leads : f.Leads g)
    (relabels : ∀ id, Relabels id f.atlas g.atlas) : Labelled accepted g.atlas := by
  have config := leads.fixes.config
  refine ⟨labelled.toQueued.leads leads, fun id usable inside => ?_, ?_⟩
  · rw [config] at usable inside
    exact (labelled.rows id usable inside).relabels (labelled.registry.sound id) (relabels id)
  · exact labelled.reserves.keep config
      (fun id isReserved => labelled.reserves.relabels (labelled.registry.sound id) isReserved (relabels id))
      (Nat.le_of_eq (nextId_leads leads).symm)

end Labelled

namespace Frame

variable {f : Frame}

theorem uploadTable_rows (f : Frame) : f.uploadTable.atlas.entries = f.atlas.entries ∧
    f.uploadTable.atlas.image = f.atlas.image := by
  unfold uploadTable
  split
  · dsimp only
    split
    · rw [announce_atlas]
      exact ⟨rfl, rfl⟩
    · rename_i start next found
      simp only [record, modifyAtlas, atlas_of_stage found, and_self]
  · exact ⟨rfl, rfl⟩

/-- Uploading the table and readying the images changes neither slots nor rows. -/
theorem relabels_closing (f : Frame) (written : Bool) (id : Nat) :
    Relabels id f.atlas (((f.uploadTable).turnLive .shaderRead).finishRepack written).atlas := by
  have steady : f.Steady (fun _ => True) (((f.uploadTable).turnLive .shaderRead).finishRepack written) :=
    steady_closing f written
  have finished : ∀ g : Frame, (g.finishRepack written).atlas.entries = g.atlas.entries ∧
      (g.finishRepack written).atlas.image = g.atlas.image := by
    intro g
    cases written <;> simp [finishRepack, modifyAtlas, turnRepack_atlas]
  obtain ⟨entries, image⟩ := f.uploadTable_rows
  obtain ⟨sameEntries, sameImage⟩ := finished ((f.uploadTable).turnLive .shaderRead)
  refine .kept (steady.slotOf id) ?_ (Or.inl ?_)
  · rw [sameEntries]
    exact congrArg (·[id]?) entries
  · rw [Atlas.side, Atlas.side, sameImage]
    show ((f.uploadTable).atlas.image.turn .shaderRead).1.capacity.side = _
    rw [OwnedImage.turn_capacity, image]

/-- What every change of slots and rows keeps, a flush keeps once a finished repack is shown. -/
theorem relabels_induction {motive : Atlas → Prop} (labelled : Labelled accepted f.adoptReady.atlas)
    (start : motive f.adoptReady.atlas)
    (step : ∀ a b, Labelled accepted a → (∀ id, Relabels id a b) → motive a → motive b) :
    Labelled accepted f.flush.atlas ∧ motive f.flush.atlas := by
  obtain ⟨g, written, works, isFlush⟩ := works_flush f
  have worked : Labelled accepted g.atlas ∧ motive g.atlas :=
    works.induction (motive := fun g => Labelled accepted g.atlas ∧ motive g.atlas) ⟨labelled, start⟩
      fun f g work before => by
        have relabels := work.relabels before.1.registry
        exact ⟨before.1.relabels work.leads relabels, step _ _ before.1 relabels before.2⟩
  have leads : g.Leads (((g.uploadTable).turnLive .shaderRead).finishRepack written) :=
    ((leads_uploadTable g).trans (leads_turnLive _ _)).trans (leads_finishRepack _ written)
  have relabels := g.relabels_closing written
  rw [isFlush]
  exact ⟨worked.1.relabels leads relabels, step _ _ worked.1 relabels worked.2⟩

end Frame

/-- A valid configuration has layers, but few, and ids beside those reserved for them. -/
theorem bounds_of_validate {c : Config} (valid : c.validate = .ok ()) :
    0 < c.maxLayers ∧ c.maxLayers ≤ layerLimit ∧ c.reservedCount < c.maxTextureId := by
  unfold Config.validate at valid
  split at valid
  · cases valid
  · split at valid
    · cases valid
    · rename_i layers
      split at valid
      · cases valid
      · split at valid
        · cases valid
        · rename_i ids
          exact ⟨by omega, by omega, Nat.not_le.mp ids⟩

theorem getElem?_initialEntries (c : Config) (id : Nat) : (initialEntries c)[id]? =
    if id < c.maxTextureId then some (if 0 < id ∧ id ≤ c.maxLayers then .wholeLayer (id - 1) else .blank) else none := by
  have filled : ∀ count : Nat, (count.fold (fun layer _ entries => entries.setIfInBounds (layerId layer)
      (.wholeLayer layer)) (Array.replicate c.maxTextureId Entry.blank))[id]? =
        if id < c.maxTextureId then some (if 0 < id ∧ id ≤ count then .wholeLayer (id - 1) else .blank) else none := by
    intro count
    induction count with
    | zero => rw [Nat.fold_zero, Array.getElem?_replicate, if_neg (c := 0 < id ∧ id ≤ 0) (by omega)]
    | succ count ih =>
      rw [Nat.fold_succ, Array.getElem?_setIfInBounds]
      by_cases same : layerId count = id
      · rw [if_pos same, if_pos (c := 0 < id ∧ id ≤ count + 1) (by rw [← same, layerId]; omega)]
        by_cases inside : id < c.maxTextureId
        · rw [if_pos inside] at ih ⊢
          rw [if_pos (same ▸ (Array.getElem?_eq_some_iff.mp ih).1), ← same]
          rfl
        · rw [if_neg inside] at ih ⊢
          rw [if_neg (same ▸ Nat.not_lt.mpr (Array.getElem?_eq_none_iff.mp ih))]
      · have before : (0 < id ∧ id ≤ count + 1) = (0 < id ∧ id ≤ count) := by
          rw [layerId] at same
          exact propext ⟨by omega, by omega⟩
        rw [if_neg same, ih]
        simp only [before]
  exact filled c.maxLayers

namespace Labelled

variable {w : World} {f : Frame}

theorem flush (labelled : Labelled accepted f.atlas) : Labelled accepted f.flush.atlas :=
  (Frame.relabels_induction (motive := fun _ => True) labelled.adoptReady trivial fun _ _ _ _ _ => trivial).1

/-- What one action keeps. -/
theorem step (labelled : Labelled accepted w.atlas) (action : Action) :
    ∃ changed, Labelled changed (w.step action).atlas := by
  by_cases flushes : action = .flush
  · subst flushes
    exact ⟨accepted, flush (f := w.frame) labelled⟩
  · obtain ⟨changed, queued⟩ := labelled.toQueued.step action
    exact ⟨changed, labelled.serves (World.serves_of_step labelled.orderly flushes) queued⟩

/-- What any actions keep, in whatever order. -/
theorem run (labelled : Labelled accepted w.atlas) (actions : List Action) :
    ∃ changed, Labelled changed (actions.foldl World.step w).atlas := by
  induction actions generalizing w accepted with
  | nil => exact ⟨accepted, labelled⟩
  | cons action rest ih =>
    obtain ⟨_, stepped⟩ := labelled.step action
    exact ih stepped

end Labelled

theorem World.fixes_foldl {w : World} (orderly : w.atlas.Orderly) (actions : List Action) :
    Fixes w.atlas (actions.foldl World.step w).atlas := by
  induction actions generalizing w with
  | nil => exact .refl _
  | cons action rest ih =>
    have fixes : Fixes w.atlas (w.step action).atlas := by
      by_cases flushes : action = .flush
      · subst flushes
        exact w.frame.leads_flush.fixes
      · exact (call_of_step orderly flushes).fixes
    exact fixes.trans (ih (succeeds_step orderly action).toOrderly)

theorem labelled_of_create {c : Config} {device live : Device} {given : Option Staging} {staging : Staging}
    (created : Atlas.create c device given = .ok (a, live, staging)) : Labelled (fun _ => none) a := by
  have queued := queued_of_create created
  obtain ⟨_, _, handle, _, rfl⟩ := create_eq_ok_iff.mp created
  refine ⟨queued, fun id usable inside => ?_, fun id _ => ?_, fun id _ => rfl, Nat.le_refl _⟩
  · have inRange : id < c.maxTextureId := inside
    have beyond : c.maxLayers + 1 ≤ id := usable
    refine ⟨.blank, (getElem?_initialEntries c id).trans ?_, ?_⟩
    · rw [if_pos inRange, if_neg (c := 0 < id ∧ id ≤ c.maxLayers) (by omega)]
    · rw [slot_ofImage]
      exact .vacant rfl rfl
  · rw [slot_ofImage]

end TextureLoom.Atlas
