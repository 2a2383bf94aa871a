import TextureLoom.Proofs.Atlas.Draining

set_option autoImplicit false

namespace TextureLoom.Atlas

open Bytes

variable {accepted : Nat → Option PixelBuffer} {a b : Atlas} {id other : Nat} {t : Texture} {p : Placement}

/-- A repack is carried on: plan and image are the same, and it may have come to wait for the device. -/
structure Repack.Continues (r s : Repack) : Prop where
  places : s.places = r.places
  handle : s.image.handle = r.image.handle
  progress : s.progress = r.progress ∨ s.progress = .waiting

namespace Repack.Continues

variable {r s u : Repack}

theorem refl (r : Repack) : r.Continues r := ⟨rfl, rfl, Or.inl rfl⟩

theorem trans (first : r.Continues s) (second : s.Continues u) : r.Continues u where
  places := second.places.trans first.places
  handle := second.handle.trans first.handle
  progress := by
    rcases second.progress with same | waits
    · rw [same]
      exact first.progress
    · exact Or.inr waits

end Repack.Continues

/-- A slot has the data of the other, and none was set since. -/
structure Slot.SameData (s later : Slot) : Prop where
  texture : later.texture = s.texture
  generation : later.generation = s.generation

namespace Slot.SameData

variable {s later last : Slot}

theorem refl (s : Slot) : s.SameData s := ⟨rfl, rfl⟩

theorem trans (first : s.SameData later) (second : later.SameData last) : s.SameData last :=
  ⟨second.texture.trans first.texture, second.generation.trans first.generation⟩

end Slot.SameData

theorem sameData_settledSlot (places : Table Nat Placement) (id : Nat) (s : Slot) :
    s.SameData (settledSlot places id s) := by
  unfold settledSlot
  split
  · split <;> exact ⟨rfl, rfl⟩
  · exact .refl s

theorem sameData_modifySlot (a : Atlas) (id other : Nat) {change : Slot → Slot}
    (keeps : ∀ s : Slot, s.SameData (change s)) :
    (a.slot other).SameData ((a.modifySlot id change).slot other) := by
  rw [slot_modifySlot]
  split
  · rename_i both
    rw [both.1]
    exact keeps _
  · exact .refl _

/-- No data is set by a flush. -/
theorem FlushStep.sameData (step : FlushStep a b) (queued : Queued accepted a) (id : Nat) :
    (a.slot id).SameData (b.slot id) := by
  cases step with
  | @adopt r _ _ =>
    rw [(adopts_adopt queued.registry r).slotOf]
    exact sameData_settledSlot _ _ _
  | enlarge handle grows =>
    rw [enlarged_eq]
    exact .refl _
  | place texture unplaced found =>
    obtain ⟨⟨p, bins⟩, _, rfl⟩ := Option.map_eq_some_iff.mp found
    exact sameData_modifySlot { a with bins } _ id fun _ => ⟨rfl, rfl⟩
  | reveal texture placed =>
    rw [slot_showPlace]
    exact sameData_modifySlot a _ id fun _ => ⟨rfl, rfl⟩
  | _ => exact .refl _

namespace Frame

variable {f g next : Frame} {spared fewer : Nat → Prop}

/-- Slots, pending ids and the live image are as they were; a running repack goes on, and of the ids spared it has the
same queued. -/
structure Steady (spared : Nat → Prop) (f g : Frame) : Prop where
  slots : g.atlas.slots = f.atlas.slots
  pending : g.atlas.pending = f.atlas.pending
  handle : g.atlas.image.handle = f.atlas.image.handle
  repack : ∀ r, f.atlas.repack = some r → ∃ s, g.atlas.repack = some s ∧ r.Continues s ∧
    ∀ id, spared id → s.queue.contains id = r.queue.contains id
  idle : f.atlas.repack = none → g.atlas.repack = none

namespace Steady

theorem refl (f : Frame) : f.Steady spared f :=
  ⟨rfl, rfl, rfl, fun r running => ⟨r, running, .refl r, fun _ _ => rfl⟩, fun idle => idle⟩

theorem trans (first : f.Steady spared g) (second : g.Steady spared next) : f.Steady spared next where
  slots := second.slots.trans first.slots
  pending := second.pending.trans first.pending
  handle := second.handle.trans first.handle
  repack := by
    intro r running
    obtain ⟨s, isMiddle, earlier, waits⟩ := first.repack r running
    obtain ⟨u, isLast, later, stillWaits⟩ := second.repack s isMiddle
    exact ⟨u, isLast, earlier.trans later, fun id isSpared => (stillWaits id isSpared).trans (waits id isSpared)⟩
  idle := fun idle => second.idle (first.idle idle)

theorem mono (steady : f.Steady spared g) (less : ∀ id, fewer id → spared id) : f.Steady fewer g where
  slots := steady.slots
  pending := steady.pending
  handle := steady.handle
  repack := by
    intro r running
    obtain ⟨s, isRepack, continues, waits⟩ := steady.repack r running
    exact ⟨s, isRepack, continues, fun id isFew => waits id (less id isFew)⟩
  idle := steady.idle

theorem slotOf (steady : f.Steady spared g) (id : Nat) : g.atlas.slot id = f.atlas.slot id := by
  rw [slot, slot, steady.slots]

theorem isPending (steady : f.Steady spared g) (id : Nat) : g.atlas.isPending id = f.atlas.isPending id := by
  rw [Atlas.isPending, Atlas.isPending, steady.pending]

end Steady

theorem Leads.sameData (leads : f.Leads g) (queued : Queued accepted f.atlas) (id : Nat) :
    (f.atlas.slot id).SameData (g.atlas.slot id) := by
  have kept : Queued accepted g.atlas ∧ (f.atlas.slot id).SameData (g.atlas.slot id) := by
    rw [Leads] at leads
    generalize g.atlas = b at leads
    induction leads with
    | refl => exact ⟨queued, .refl _⟩
    | tail _ step before => exact ⟨before.1.flushStep step, before.2.trans (step.sameData before.1 id)⟩
  exact kept.2

/-- Only an id with data that a running repack has planned is uploaded for it, unless the lack of room is announced. -/
theorem uploadPlanned_cases (written : Bool × Frame) (id : Nat) :
    ((∀ r, written.2.atlas.repack = some r →
        (written.2.atlas.slot id).texture = none ∨ r.places.get? id = none) ∧ uploadPlanned written id = written) ∨
    ∃ r t p, written.2.atlas.repack = some r ∧ (written.2.atlas.slot id).texture = some t ∧
      r.places.get? id = some p ∧
      ((uploadPlanned written id).2 = (written.2.announce .stagingOverflow).modifyAtlas (fun a =>
          { a with repack := a.repack.map fun r => { r with queue := r.queue.push id } }) ∨
        ∃ start next, written.2.stage (p.width * p.height * 4) (t.padded written.2.atlas.config.padding) =
            some (start, next) ∧
          (uploadPlanned written id).2 =
            (next.turnRepack .transferTarget).record [uploadCommand r.image start p]) := by
  obtain ⟨isWritten, f⟩ := written
  simp only [uploadPlanned]
  split
  · rename_i r t running texture
    split
    · rename_i unplanned
      refine Or.inl ⟨fun other isOther => ?_, rfl⟩
      cases running.symm.trans isOther
      exact Or.inr unplanned
    · rename_i p planned
      refine Or.inr ⟨r, t, p, running, texture, planned, ?_⟩
      rcases stageTexture_eq f t p with full | ⟨start, next, fits, staged⟩
      · rw [full]
        exact Or.inl rfl
      · rw [fits]
        exact Or.inr ⟨start, next, staged, rfl⟩
  · rename_i idle
    refine Or.inl ⟨fun r running => Or.inl ?_, rfl⟩
    rcases texture : (f.atlas.slot id).texture with _ | t
    · rfl
    · exact absurd texture (idle r t running)

/-- An upload that was staged for a repack turns its image and nothing else. -/
theorem uploadPlanned_keeps {r : Repack} (staged : next.atlas = f.atlas) (running : f.atlas.repack = some r) :
    (next.turnRepack .transferTarget).atlas = { f.atlas with
      repack := some { r with image := (r.image.turn .transferTarget).1 } } := by
  rw [turnRepack_atlas, staged, running, Option.map_some]

theorem steady_uploadPlanned (written : Bool × Frame) (id : Nat) :
    written.2.Steady (· ≠ id) (uploadPlanned written id).2 := by
  rcases uploadPlanned_cases written id with ⟨_, same⟩ |
    ⟨r, t, p, running, _, _, full | ⟨start, next, staged, isUploaded⟩⟩
  · rw [same]
    exact .refl written.2
  · rw [full]
    have same := announce_atlas written.2 .stagingOverflow
    simp only [modifyAtlas, same]
    refine ⟨rfl, rfl, rfl, fun s isRepack => ?_, fun idle => by rw [idle]; rfl⟩
    rw [isRepack]
    exact ⟨_, rfl, ⟨rfl, rfl, Or.inl rfl⟩, fun other distinct => Queue.contains_push_of_ne _ distinct⟩
  · rw [isUploaded]
    have turned := uploadPlanned_keeps (atlas_of_stage staged) running
    simp only [record, turned]
    refine ⟨rfl, rfl, rfl, fun s isRepack => ?_, fun idle => by cases running.symm.trans idle⟩
    cases running.symm.trans isRepack
    exact ⟨_, rfl, ⟨rfl, OwnedImage.turn_handle _ _, Or.inl rfl⟩, fun _ _ => rfl⟩

/-- What trying to upload it for a repack does to the id itself. -/
theorem uploadPlanned_self {written : Bool × Frame} {r : Repack} (queued : Queued accepted written.2.atlas)
    (running : written.2.atlas.repack = some r) (texture : (written.2.atlas.slot id).texture = some t)
    (planned : r.places.get? id = some p) : ∃ s, (uploadPlanned written id).2.atlas.repack = some s ∧ r.Continues s ∧
      (s.queue.contains id = true ∨ (uploadPlanned written id).2.Records r.image.handle t p) := by
  obtain ⟨_, bound⟩ := queued.lt_of_texture texture
  rcases uploadPlanned_cases written id with ⟨idle, _⟩ | ⟨other, u, q, isOther, isTexture, isPlanned, tried⟩
  · rcases idle r running with none | unplanned
    · cases none.symm.trans texture
    · cases unplanned.symm.trans planned
  · cases running.symm.trans isOther
    cases texture.symm.trans isTexture
    cases planned.symm.trans isPlanned
    rcases tried with full | ⟨start, next, staged, isUploaded⟩
    · rw [full]
      simp only [modifyAtlas, announce_atlas, running, Option.map_some]
      exact ⟨_, rfl, ⟨rfl, rfl, Or.inl rfl⟩, Or.inl ((queued.queue r running).contains_push_self bound)⟩
    · have range := staged_of_stage queued.positive staged
      have turned := uploadPlanned_keeps range.atlas running
      have records : ((next.turnRepack .transferTarget).record [uploadCommand r.image start p]).Records
          r.image.handle t p :=
        range.records _ r.image (mem_record_self _ _) (turnRepack_keeps next .transferTarget).1 (by
          rw [record, turned])
      rw [isUploaded]
      refine ⟨{ r with image := (r.image.turn .transferTarget).1 }, ?_, ⟨rfl, OwnedImage.turn_handle _ _, Or.inl rfl⟩,
        Or.inr records⟩
      rw [record, turned]

theorem steady_uploadTable (f : Frame) : f.Steady spared f.uploadTable := by
  unfold uploadTable
  split
  · dsimp only
    split
    · have same := announce_atlas f .stagingOverflow
      refine ⟨by rw [same], by rw [same], by rw [same], fun r running => ⟨r, ?_, .refl r, fun _ _ => rfl⟩,
        fun idle => ?_⟩
      · rw [same, running]
      · rw [same, idle]
    · rename_i found
      simp only [modifyAtlas, record, atlas_of_stage found]
      exact ⟨rfl, rfl, rfl, fun r running => ⟨r, running, .refl r, fun _ _ => rfl⟩,
    fun idle => idle⟩
  · exact .refl f

theorem steady_turnLive (f : Frame) (layout : Layout) : f.Steady spared (f.turnLive layout) :=
  ⟨rfl, rfl, OwnedImage.turn_handle _ _, fun r running => ⟨r, running, .refl r, fun _ _ => rfl⟩,
    fun idle => idle⟩

theorem steady_turnRepack (f : Frame) (layout : Layout) : f.Steady spared (f.turnRepack layout) := by
  have turned := turnRepack_atlas f layout
  refine ⟨by rw [turned], by rw [turned], by rw [turned], fun r running => ?_, fun idle => ?_⟩
  · rw [turned, running]
    exact ⟨_, rfl, ⟨rfl, OwnedImage.turn_handle _ _, Or.inl rfl⟩, fun _ _ => rfl⟩
  · rw [turned, idle, Option.map_none]

theorem steady_finishRepack (f : Frame) (written : Bool) : f.Steady spared (f.finishRepack written) := by
  have readied : f.Steady spared (if written then f.turnRepack .shaderRead else f) := by
    split
    · exact steady_turnRepack f .shaderRead
    · exact .refl f
  refine readied.trans ⟨rfl, rfl, rfl, fun r running => ?_, fun idle => ?_⟩
  · refine ⟨if r.queue.isEmpty then { r with progress := .waiting } else r, ?_, ?_, ?_⟩
    · rw [finishRepack, modifyAtlas, running, Option.map_some]
    · split
      · exact ⟨rfl, rfl, Or.inr rfl⟩
      · exact .refl r
    · intro id _
      split <;> rfl
  · rw [finishRepack, modifyAtlas, idle, Option.map_none]

/-- Uploading the table and readying the images. -/
theorem steady_closing (f : Frame) (written : Bool) :
    f.Steady spared (((f.uploadTable).turnLive .shaderRead).finishRepack written) :=
  ((steady_uploadTable f).trans (steady_turnLive _ .shaderRead)).trans (steady_finishRepack _ written)

variable {ids : List Nat}

theorem onward_finish (f : Frame) (ids : List Nat) (positive : 0 < f.atlas.alignment) :
    f.Onward (f.finish ids) := by
  have works := works_planned f ids
  exact (Onward.of_works works positive).trans (onward_closing _ _ (works.leads.fixes.alignment ▸ positive))

/-- Uploading into the image of a running repack leaves the rest as it is. -/
theorem steady_finish (f : Frame) (ids : List Nat) : f.Steady (· ∉ ids) (f.finish ids) := by
  have planned : f.Steady (· ∉ ids) (ids.foldl uploadPlanned (false, f)).2 :=
    List.foldlRecOn (motive := fun written => f.Steady (· ∉ ids) written.2) ids uploadPlanned (.refl f)
      fun written before id member => before.trans
        ((steady_uploadPlanned written id).mono fun _ outside same => outside (same ▸ member))
  exact planned.trans (steady_closing _ _)

/-- An id with data that is queued for a repack is queued again, or uploaded to its planned place. -/
theorem planned_finish {r : Repack} (queued : Queued accepted f.atlas) (distinct : ids.Nodup) (member : id ∈ ids)
    (running : f.atlas.repack = some r) (texture : (f.atlas.slot id).texture = some t)
    (planned : r.places.get? id = some p) : ∃ s, (f.finish ids).atlas.repack = some s ∧ r.Continues s ∧
      (s.queue.contains id = true ∨ (f.finish ids).Records r.image.handle t p) := by
  obtain ⟨x, ⟨earlier, before⟩, later, after⟩ := foldl_at
    (fun x y : Bool × Frame => x.2.Works y.2 ∧ x.2.Steady (· = id) y.2) (fun x => ⟨.refl x.2, .refl x.2⟩)
    (fun _ _ _ first second => ⟨first.1.trans second.1, first.2.trans second.2⟩)
    (fun x other distinct => ⟨works_uploadPlanned x other, (steady_uploadPlanned x other).mono
      fun _ same => same ▸ distinct.symm⟩) distinct member (false, f)
  have queuedAt : Queued accepted x.2.atlas := queued.leads earlier.leads
  have behind : Queued accepted (uploadPlanned x id).2.atlas := queuedAt.leads (works_uploadPlanned x id).leads
  obtain ⟨u, runningAt, continues, _⟩ := before.repack r running
  have textureAt : (x.2.atlas.slot id).texture = some t := by rw [before.slotOf, texture]
  rw [← continues.places] at planned
  obtain ⟨v, isRepack, tried, done⟩ := uploadPlanned_self queuedAt runningAt textureAt planned
  have last := after.trans (steady_closing _ (ids.foldl uploadPlanned (false, f)).1)
  have onward := (Onward.of_works later behind.positive).trans
    (onward_closing _ (ids.foldl uploadPlanned (false, f)).1 (behind.leads later.leads).positive)
  obtain ⟨s, isLast, following, waits⟩ := last.repack v isRepack
  refine ⟨s, isLast, (continues.trans tried).trans following, ?_⟩
  rcases done with again | records
  · exact Or.inl ((waits id rfl).trans again)
  · rw [continues.handle] at records
    exact Or.inr (records.onward onward)

/-- A repack starts with the first capacity in its search that holds all that has data, or it does not start. -/
theorem startRepack_cases (f : Frame) (mode : RepackMode) : (f.startRepack mode).atlas.slots = f.atlas.slots ∧
    (f.startRepack mode).atlas.pending = f.atlas.pending ∧
    ((f.startRepack mode).atlas.repack = f.atlas.repack ∨
      f.atlas.repackItems ≠ [] ∧ ∃ plan handle,
        (mode.capacities f.atlas.image.capacity f.atlas.config.maxLayers).findSome? (planFor? f.atlas.repackItems) =
          some plan ∧
        (f.startRepack mode).atlas.repack =
          some (plan.begin handle f.atlas.config.maxTextureId f.atlas.repackItems)) := by
  unfold startRepack
  dsimp only
  split
  · exact ⟨rfl, rfl, Or.inl rfl⟩
  · rename_i item rest isItems
    split
    · rw [announce_atlas]
      exact ⟨rfl, rfl, Or.inl rfl⟩
    · rename_i plan found
      have nonempty : f.atlas.repackItems ≠ [] := by
        rw [isItems]
        exact List.cons_ne_nil item rest
      rw [← isItems] at found ⊢
      unfold startPlanned
      split
      · rw [announce_atlas]
        exact ⟨rfl, rfl, Or.inl rfl⟩
      · rename_i handle device _
        rw [announce_atlas]
        exact ⟨rfl, rfl, Or.inr ⟨nonempty, plan, handle, found, rfl⟩⟩

/-- A repack goes on, or none ran and one starts with all that has data. -/
theorem startRequested_cases (f : Frame) : f.startRequested.atlas.slots = f.atlas.slots ∧
    f.startRequested.atlas.pending = f.atlas.pending ∧
    (f.startRequested.atlas.repack = f.atlas.repack ∨
      f.atlas.repack = none ∧ ∃ c plan handle, planFor? f.atlas.repackItems c = some plan ∧
        f.startRequested.atlas.repack = some (plan.begin handle f.atlas.config.maxTextureId f.atlas.repackItems)) := by
  unfold startRequested
  split
  · rename_i mode idle asked
    obtain ⟨slots, pending, same | ⟨_, plan, handle, found, begins⟩⟩ := f.startRepack_cases mode
    · exact ⟨slots, pending, Or.inl same⟩
    · obtain ⟨c, _, planned⟩ := List.exists_of_findSome?_eq_some found
      exact ⟨slots, pending, Or.inr ⟨idle, c, plan, handle, planned, begins⟩⟩
  · exact ⟨rfl, rfl, Or.inl rfl⟩

/-- The image of a ready repack is shown first, if there is one. -/
theorem adoptReady_cases (f : Frame) :
    (∃ r, f.atlas.repack = some r ∧ r.progress = .ready ∧ f.adoptReady.atlas = f.atlas.adopt r) ∨
    (∀ r, f.atlas.repack = some r → r.progress ≠ .ready) ∧ f.adoptReady.atlas = f.atlas := by
  unfold adoptReady
  split
  · rename_i idle
    exact Or.inr ⟨fun r running => (by cases idle.symm.trans running), rfl⟩
  · rename_i r running
    split
    · rename_i ready
      exact Or.inl ⟨r, running, ready, announce_atlas _ _⟩
    · rename_i unready
      refine Or.inr ⟨fun other isOther => ?_, rfl⟩
      cases running.symm.trans isOther
      exact unready

/-- A repack that runs once a flush has started what was asked for ran before and is not ready, or it was started with
all that has data queued. -/
theorem running_cases (queued : Queued accepted f.atlas) {r : Repack}
    (running : f.adoptReady.startRequested.atlas.repack = some r) :
    f.atlas.repack = some r ∧ r.progress ≠ .ready ∧ f.adoptReady.atlas = f.atlas ∨
    r.progress = .draining ∧ (∀ id, (f.adoptReady.atlas.slot id).texture.isSome → r.queue.contains id = true) ∧
      ∀ id, r.queue.contains id = true → (r.places.get? id).isSome := by
  have adopted : Queued accepted f.adoptReady.atlas := queued.leads f.leads_adoptReady
  rcases (f.adoptReady.startRequested_cases).2.2 with same | ⟨_, c, plan, handle, isPlan, begins⟩
  · rw [same] at running
    rcases f.adoptReady_cases with ⟨o, _, _, isAtlas⟩ | ⟨unready, isAtlas⟩
    · rw [isAtlas, (adopts_adopt queued.registry o).repack] at running
      cases running
    · rw [isAtlas] at running
      exact Or.inl ⟨running, unready r running, isAtlas⟩
  · cases begins.symm.trans running
    have fresh := Queue.sound_create f.adoptReady.atlas.config.maxTextureId
    refine Or.inr ⟨rfl, fun id hasTexture => ?_, fun id waits => ?_⟩
    · obtain ⟨t, texture⟩ := Option.isSome_iff_exists.mp hasTexture
      rw [Plan.begin_queue]
      refine (fresh.pushAll _).2 id (adopted.lt_of_texture texture).2 (Or.inl ?_)
      exact List.mem_map.mpr ⟨_, mem_repackItems texture, rfl⟩
    · rw [Plan.begin_queue] at waits
      have empty := Queue.not_contains_of_isEmpty fresh rfl id
      have member := (Queue.contains_pushAll waits).resolve_right (Bool.eq_false_iff.mp empty)
      obtain ⟨item, isItem, rfl⟩ := List.mem_map.mp member
      obtain ⟨p, isPlace, _⟩ := get?_of_planFor? isPlan (nodup_repackItems _) item isItem
      exact Option.isSome_iff_exists.mpr ⟨p, isPlace⟩

theorem takeWaiting_ids (f : Frame) : f.takeWaiting.1 = f.atlas.pending.drain.1 ∧
    ∀ r, f.atlas.repack = some r → f.takeWaiting.2.1 = r.queue.drain.1 := by
  unfold takeWaiting
  dsimp only
  split
  · rename_i idle
    exact ⟨rfl, fun r running => by cases idle.symm.trans running⟩
  · rename_i r running
    refine ⟨rfl, fun other isOther => ?_⟩
    cases running.symm.trans isOther
    rfl

/-- What is left of a flush once the waiting ids are taken. -/
structure Taken (f g : Frame) : Prop where
  works : f.adoptReady.Works g
  slots : g.atlas.slots = f.adoptReady.atlas.slots
  pending : g.atlas.pending = f.adoptReady.atlas.pending.drain.2
  repack : g.atlas.repack =
    f.adoptReady.startRequested.atlas.repack.map fun r => { r with queue := r.queue.drain.2 }

/-- What a flush places and uploads the waiting ids from. -/
def gathered (f : Frame) : Frame := f.adoptReady.startRequested.growRequested.takeWaiting.2.2

theorem taken_gathered (f : Frame) : f.Taken f.gathered := by
  obtain ⟨slots, pending, _⟩ := startRequested_cases f.adoptReady
  have grown := retains_growRequested f.adoptReady.startRequested
  unfold gathered
  rw [takeWaiting_eq]
  refine ⟨?_, grown.slots.trans slots, ?_, ?_⟩
  · exact ((works_startRequested _).trans (works_growRequested _)).trans (.single .take)
  · rw [modifyAtlas, grown.pending, pending]
  · rw [modifyAtlas, grown.repack]

theorem flush_gathered (f : Frame) : ∃ planned,
    (∀ r, f.adoptReady.startRequested.atlas.repack = some r → planned = r.queue.drain.1) ∧
    f.flush = (f.adoptReady.atlas.pending.drain.1.foldl uploadWaiting
      (f.gathered.placeAllWaiting f.adoptReady.atlas.pending.drain.1)).finish planned := by
  obtain ⟨_, pending, _⟩ := startRequested_cases f.adoptReady
  have grown := retains_growRequested f.adoptReady.startRequested
  obtain ⟨ids, planned⟩ := takeWaiting_ids f.adoptReady.startRequested.growRequested
  refine ⟨f.adoptReady.startRequested.growRequested.takeWaiting.2.1, ?_, ?_⟩
  · rw [← grown.repack]
    exact planned
  · rw [← pending, ← grown.pending, ← ids]
    rfl

/-- A flush goes through the ids that wait once a finished repack is shown, and then through those that are queued for a
repack. -/
theorem flush_eq (f : Frame) : ∃ g planned, f.Taken g ∧
    (∀ r, f.adoptReady.startRequested.atlas.repack = some r → planned = r.queue.drain.1) ∧
    f.flush = (f.adoptReady.atlas.pending.drain.1.foldl uploadWaiting
      (g.placeAllWaiting f.adoptReady.atlas.pending.drain.1)).finish planned := by
  obtain ⟨planned, isPlanned, isFlush⟩ := f.flush_gathered
  exact ⟨f.gathered, planned, f.taken_gathered, isPlanned, isFlush⟩

/-- Placing, uploading and readying, for an id that does not wait. -/
theorem flush_of_idle (queued : Queued accepted f.adoptReady.atlas)
    (idle : f.adoptReady.atlas.isPending id = false) :
    f.flush.atlas.slot id = f.adoptReady.atlas.slot id ∧ f.flush.atlas.isPending id = false := by
  obtain ⟨g, planned, taken, _, isFlush⟩ := f.flush_eq
  have outside : id ∉ f.adoptReady.atlas.pending.drain.1 := by
    rw [queued.pending.mem_drain_iff]
    exact Bool.eq_false_iff.mp idle
  have spares := spares_waiting g outside
  have steady := steady_finish (f.adoptReady.atlas.pending.drain.1.foldl uploadWaiting
    (g.placeAllWaiting f.adoptReady.atlas.pending.drain.1)) planned
  rw [isFlush]
  refine ⟨?_, ?_⟩
  · rw [steady.slotOf, spares.slot, slot, slot, taken.slots]
  · rw [steady.isPending, spares.waits, isPending, taken.pending]
    exact queued.pending.not_contains_drain id

/-- What becomes of an id with data that waits once a finished repack is shown. -/
theorem outcome_flush (queued : Queued accepted f.adoptReady.atlas)
    (texture : (f.adoptReady.atlas.slot id).texture = some t) (waits : f.adoptReady.atlas.isPending id = true) :
    Outcome id t (f.adoptReady.atlas.slot id) f.flush := by
  obtain ⟨g, planned, taken, _, isFlush⟩ := f.flush_eq
  have member : id ∈ f.adoptReady.atlas.pending.drain.1 := queued.pending.mem_drain_iff.mpr waits
  have slotOf : g.atlas.slot id = f.adoptReady.atlas.slot id := by rw [slot, slot, taken.slots]
  have queuedAt : Queued accepted g.atlas := queued.leads taken.works.leads
  have untaken : g.atlas.isPending id = false := by
    rw [isPending, taken.pending]
    exact queued.pending.not_contains_drain id
  rw [← slotOf] at texture ⊢
  have outcome := outcome_waiting queuedAt (Queue.nodup_drain _).1 member texture untaken
  have works := (works_placeAllWaiting g f.adoptReady.atlas.pending.drain.1).trans
    (works_uploadAll _ f.adoptReady.atlas.pending.drain.1)
  have steady := steady_finish (f.adoptReady.atlas.pending.drain.1.foldl uploadWaiting
    (g.placeAllWaiting f.adoptReady.atlas.pending.drain.1)) planned
  rw [isFlush]
  exact outcome.onward (onward_finish _ planned (queuedAt.leads works.leads).positive) (steady.slotOf id)
    (steady.isPending id) steady.handle

/-- A repack that runs, once it was started, goes on behind the flush, and no other does. An id with data that was
queued for it is queued again, or uploaded to its planned place. -/
theorem planned_flush (queued : Queued accepted f.adoptReady.atlas) :
    (f.adoptReady.startRequested.atlas.repack = none → f.flush.atlas.repack = none) ∧
    ∀ r, f.adoptReady.startRequested.atlas.repack = some r → ∃ s, f.flush.atlas.repack = some s ∧ r.Continues s ∧
      ∀ id, (s.queue.contains id = true → r.queue.contains id = true) ∧
        ∀ t p, r.queue.contains id = true → (f.adoptReady.atlas.slot id).texture = some t →
          r.places.get? id = some p → s.queue.contains id = true ∨ f.flush.Records r.image.handle t p := by
  obtain ⟨g, planned, taken, isPlanned, isFlush⟩ := f.flush_eq
  have started : Queued accepted f.adoptReady.startRequested.atlas := queued.leads (works_startRequested _).leads
  have unaltered := repack_waiting g f.adoptReady.atlas.pending.drain.1
  have works := taken.works.trans ((works_placeAllWaiting g f.adoptReady.atlas.pending.drain.1).trans
    (works_uploadAll _ f.adoptReady.atlas.pending.drain.1))
  rw [isFlush]
  generalize f.adoptReady.atlas.pending.drain.1.foldl uploadWaiting
    (g.placeAllWaiting f.adoptReady.atlas.pending.drain.1) = last at unaltered works
  have steady := steady_finish last planned
  rw [taken.repack] at unaltered
  constructor
  · intro idle
    apply steady.idle
    rw [unaltered, idle, Option.map_none]
  · intro r running
    rw [running, Option.map_some] at unaltered
    obtain ⟨s, isRepack, continues, waits⟩ := steady.repack _ unaltered
    have sound := started.queue r running
    refine ⟨s, isRepack, ⟨continues.places, continues.handle, continues.progress⟩, fun id => ⟨fun again => ?_, ?_⟩⟩
    · -- Nothing is queued but what was taken.
      rcases wasQueued : r.queue.contains id with _ | _
      · have outside : id ∉ planned := by
          rw [isPlanned r running, sound.mem_drain_iff, wasQueued]
          exact Bool.false_ne_true
        rw [waits id outside] at again
        exact (sound.not_contains_drain id).symm.trans again
      · rfl
    · intro t p wasQueued texture isPlace
      have textureOf : (last.atlas.slot id).texture = some t := by
        rw [(works.leads.sameData queued id).texture, texture]
      have member : id ∈ planned := by
        rw [isPlanned r running]
        exact sound.mem_drain_iff.mpr wasQueued
      have distinct : planned.Nodup := by
        rw [isPlanned r running]
        exact (Queue.nodup_drain _).1
      obtain ⟨u, isOther, _, done⟩ :=
        planned_finish (queued.leads works.leads) distinct member unaltered textureOf isPlace
      cases isRepack.symm.trans isOther
      exact done

/-- A flush leaves no repack ready: only the device can make it so. -/
theorem unready_flush (queued : Queued accepted f.atlas) {s : Repack} (running : f.flush.atlas.repack = some s) :
    s.progress ≠ .ready := by
  obtain ⟨idle, goesOn⟩ := planned_flush (queued.leads f.leads_adoptReady)
  rcases started : f.adoptReady.startRequested.atlas.repack with _ | r
  · cases (idle started).symm.trans running
  · obtain ⟨_, isLast, continues, _⟩ := goesOn r started
    cases isLast.symm.trans running
    intro isReady
    rcases continues.progress with same | waiting
    · rcases running_cases queued started with ⟨_, unready, _⟩ | ⟨draining, _⟩
      · exact unready (same.symm.trans isReady)
      · cases draining.symm.trans (same.symm.trans isReady)
    · cases waiting.symm.trans isReady

end Frame

end TextureLoom.Atlas
