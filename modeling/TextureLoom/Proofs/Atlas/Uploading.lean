import TextureLoom.Proofs.Atlas.Calls
import TextureLoom.Proofs.Atlas.Redrawing

set_option autoImplicit false

namespace TextureLoom.Atlas

open Bytes

variable {tracked : Nat → Prop} {accepted : Nat → Option PixelBuffer} {a : Atlas} {live after : Device}
  {todo : List Nat} {id : Nat} {t : Texture} {p : Placement}

theorem isValid_ofPlacement (p : Placement) (side : Nat) : (Entry.ofPlacement p side).isValid = true := by
  simp only [Entry.isValid, Entry.ofPlacement]
  decide

theorem entries_showPlace (placed : (a.slot id).place = some p) (bound : id < a.entries.size) :
    ∃ e, (a.showPlace id).entries[id]? = some e ∧ e.isValid = true := by
  have isPlaced : a.placement? id = some p := placed
  rw [showPlace, isPlaced]
  refine ⟨.ofPlacement p a.side, ?_, isValid_ofPlacement p a.side⟩
  rw [entries_setEntry, if_pos ⟨rfl, bound⟩]

theorem slot_showPlace (a : Atlas) (id other : Nat) : (a.showPlace id).slot other = a.slot other := by
  unfold showPlace
  split <;> rfl

theorem showPlace_keeps (a : Atlas) (id : Nat) :
    (a.showPlace id).bins = a.bins ∧ (a.showPlace id).freeIds = a.freeIds ∧ (a.showPlace id).nextId = a.nextId ∧
      (a.showPlace id).repack = a.repack := by
  unfold showPlace
  split <;> exact ⟨rfl, rfl, rfl, rfl⟩

/-- An id is shown at the place that it has. -/
structure Reveals (id : Nat) (a b : Atlas) : Prop where
  edits : Edits id a b
  slot : b.slot id = (a.slot id).uploaded
  marked : ∃ e, b.entries[id]? = some e ∧ e.isValid = true
  bins : b.bins = a.bins
  freeIds : b.freeIds = a.freeIds
  nextId : b.nextId = a.nextId
  repack : b.repack = a.repack

theorem reveals_showPlace (sizes : a.slots.size = a.entries.size) (bound : id < a.slots.size)
    (placed : (a.slot id).place = some p) : Reveals id a ((a.modifySlot id Slot.uploaded).showPlace id) where
  edits := (edits_modifySlot a id _).trans (edits_showPlace _ id)
  slot := by rw [slot_showPlace, slot_modifySlot_self bound]
  marked := by
    have isPlaced : ((a.modifySlot id Slot.uploaded).slot id).place = some p := by
      rw [slot_modifySlot_self bound]
      exact placed
    exact entries_showPlace isPlaced (sizes ▸ bound)
  bins := (showPlace_keeps _ id).1
  freeIds := (showPlace_keeps _ id).2.1
  nextId := (showPlace_keeps _ id).2.2.1
  repack := (showPlace_keeps _ id).2.2.2

theorem Reveals.registry {b : Atlas} (reveals : Reveals id a b)
    (registry : Registry accepted a.config.maxTextureId a.slots a.entries a.freeIds a.nextId)
    (registered : (a.slot id).isRegistered = true) (placed : (a.slot id).place = some p) :
    Registry accepted b.config.maxTextureId b.slots b.entries b.freeIds b.nextId := by
  have edits := reveals.edits
  have slotSound : (a.slot id).Sound (accepted id) := registry.sound id
  rw [edits.config, reveals.freeIds, reveals.nextId]
  refine registry.update_registered registered edits.slots_size edits.entries_size edits.slotOf edits.entryOf
    (fun _ _ => rfl) ?_ fun _ => reveals.marked
  rw [show b.slots.getD id {} = (a.slot id).uploaded from reveals.slot]
  exact slotSound.uploaded (by rw [placed]; rfl)

theorem Packed.reveal {b : Atlas} (packed : Packed a.placement? a.bins a.image.capacity) (reveals : Reveals id a b) :
    Packed b.placement? b.bins a.image.capacity := by
  have same : b.placement? id = a.placement? id := by
    rw [placement?, reveals.slot]
    rfl
  rw [reveals.bins, reveals.edits.placement?_eq same]
  exact packed

/-- An id is shown at its place once the image holds its texture there. -/
theorem Sound.show (sound : Sound tracked accepted a live todo) (texture : (a.slot id).texture = some t)
    (placed : (a.slot id).place = some p)
    (holds : p.Fits t a.config.padding → live.Holds a.image.handle p t a.config.padding) :
    Sound tracked accepted ((a.modifySlot id Slot.uploaded).showPlace id) live todo := by
  have slotSound : (a.slot id).Sound (accepted id) := sound.registry.sound id
  have registered : (a.slot id).isRegistered = true := slotSound.registered (by rw [texture]; rfl)
  have sizes := sound.registry.sizes
  have reveals := reveals_showPlace sizes (lt_of_isRegistered registered) placed
  generalize (a.modifySlot id Slot.uploaded).showPlace id = b at reveals
  have edits := reveals.edits
  have slotOf := reveals.slot
  refine sound.edit edits ?_ sound.usable (reveals.registry sound.registry registered placed)
    (fun _ => Or.inr (by rw [slotOf]; rfl)) ?_
  · rw [edits.image]
    exact sound.packed.reveal reveals
  · intro isTracked
    have content := sound.content id isTracked
    rw [slotOf, edits.config, edits.image, reveals.repack]
    refine ⟨content.fits, ?_, ?_⟩
    · intro other q _ isTexture isPlaced
      cases texture.symm.trans isTexture
      cases placed.symm.trans isPlaced
      exact holds (content.fits t p texture placed)
    · intro r other running _ isTexture
      have valid := sound.valid_of_running running id isTracked
      exact content.planned r other running valid isTexture

/-- An id that was taken from the queue of a repack is done with once it is in the image or in the queue again. -/
theorem Sound.done {rest : List Nat} (sound : Sound tracked accepted a live (id :: rest))
    (settled : ∀ r t p, a.repack = some r → (a.slot id).texture = some t →
      r.Plans a.config.padding live (id :: rest) id t p →
      r.queue.contains id = true ∨ live.Holds r.image.handle p t a.config.padding) :
    Sound tracked accepted a live rest :=
  { sound with
    content := by
      intro other isTracked
      have content := sound.content other isTracked
      refine ⟨content.fits, content.shown, ?_⟩
      intro r t running valid isTexture
      obtain ⟨p, plans⟩ := content.planned r t running valid isTexture
      refine ⟨p, plans.planned, plans.fits, ?_⟩
      rcases plans.holds with ⟨draining, inTodo | waits⟩ | holds
      · rcases List.mem_cons.mp inTodo with rfl | later
        · exact (settled r t p running isTexture plans).imp_left fun waits => ⟨draining, Or.inr waits⟩
        · exact Or.inl ⟨draining, Or.inl later⟩
      · exact Or.inl ⟨draining, Or.inr waits⟩
      · exact Or.inr holds }

/-- An id that found no room in the staging buffer waits for the repack again. -/
theorem Sound.requeue {r : Repack} (sound : Sound tracked accepted a live todo) (running : a.repack = some r)
    (id : Nat) : Sound tracked accepted { a with repack := some { r with queue := r.queue.push id } } live todo :=
  { sound with
    repack := by
      intro after isAfter
      cases isAfter
      have repack := sound.repack r running
      exact { repack with queue := repack.queue.push id }
    steady := Or.inr (sound.valid_of_running running)
    content := by
      intro other isTracked
      have content := sound.content other isTracked
      refine ⟨content.fits, content.shown, ?_⟩
      intro after t isAfter valid isTexture
      cases isAfter
      obtain ⟨p, plans⟩ := content.planned r t running valid isTexture
      exact ⟨p, plans.planned, plans.fits, plans.holds.imp_left fun both =>
        ⟨both.1, both.2.imp_right fun waits => Queue.contains_push.mpr (Or.inl waits)⟩⟩ }

/-- An id that is put back is done with until the next flush. -/
theorem Sound.putBack {r : Repack} {t : Texture} {rest : List Nat}
    (sound : Sound tracked accepted a live (id :: rest)) (running : a.repack = some r)
    (texture : (a.slot id).texture = some t) :
    Sound tracked accepted { a with repack := some { r with queue := r.queue.push id } } live rest := by
  have bound : id < r.queue.waiting.size := by
    have slotSound : (a.slot id).Sound (accepted id) := sound.registry.sound id
    rw [(sound.repack r running).queue.size, ← sound.registry.slots_size]
    exact lt_of_isRegistered (slotSound.registered (by rw [texture]; rfl))
  apply (sound.requeue running id).done
  intro other _ _ isOther _ _
  cases isOther
  exact Or.inl (Queue.contains_push.mpr (Or.inr ⟨rfl, bound⟩))

theorem Sound.untouched {staging : Staging} {commands : List Command} (sound : Sound tracked accepted a live todo)
    (runs : Runs staging commands [] live after) : Sound tracked accepted a after todo := by
  obtain ⟨i, tracks⟩ := sound.image
  refine sound.redraw runs rfl rfl ⟨i, tracks.of_runs runs List.not_mem_nil⟩ ?_ (fun none => none) ?_
  · intro r running
    exact (sound.repack r running).of_runs runs List.not_mem_nil
  · intro other isTracked
    exact (sound.content other isTracked).redraw (fun q _ => runs.sameAt List.not_mem_nil q) fun r q _ _ =>
      runs.sameAt List.not_mem_nil q

/-- A repack advances only when nothing is queued for it, and so holds all that it planned. -/
theorem Sound.advance (sound : Sound tracked accepted a live []) {advance : Repack → Repack}
    (advances : ∀ r, advance r = r ∨
      ∃ progress, advance r = { r with progress } ∧ (r.progress = .draining → r.queue.isEmpty = true)) :
    Sound tracked accepted { a with repack := a.repack.map advance } live [] :=
  { sound with
    repack := by
      intro after isAfter
      obtain ⟨r, running, rfl⟩ := Option.map_eq_some_iff.mp isAfter
      have repack := sound.repack r running
      rcases advances r with same | ⟨progress, later, _⟩
      · rwa [same]
      · rw [later]
        exact { repack with }
    steady := sound.steady.imp_left fun calm => { calm with idle := by rw [calm.idle]; rfl }
    content := by
      intro other isTracked
      have content := sound.content other isTracked
      refine ⟨content.fits, content.shown, ?_⟩
      intro after t isAfter valid isTexture
      obtain ⟨r, running, rfl⟩ := Option.map_eq_some_iff.mp isAfter
      obtain ⟨p, plans⟩ := content.planned r t running valid isTexture
      rcases advances r with same | ⟨progress, later, empties⟩
      · exact ⟨p, same.symm ▸ plans⟩
      · rw [later]
        refine ⟨p, plans.planned, plans.fits, Or.inr ?_⟩
        rcases plans.holds with ⟨draining, inTodo | waits⟩ | holds
        · cases inTodo
        · have idle := Queue.not_contains_of_isEmpty (sound.repack r running).queue (empties draining) other
          rw [waits] at idle
          cases idle
        · exact holds }

namespace Frame

variable {promised : Submission → Nat → Prop} {waiting : List Submission} {f next : Frame} {start : Nat}

/-- A texture that was staged, or an announcement that it was not. -/
theorem stageTexture_cases (positive : 0 < f.atlas.alignment) (t : Texture) (p : Placement) :
    f.stageTexture t p = (none, f.announce .stagingOverflow) ∨
    ∃ start next, f.stageTexture t p = (some start, next) ∧
      f.Staged next (p.width * p.height * 4) start (t.padded f.atlas.config.padding) := by
  unfold stageTexture
  split
  · exact Or.inl rfl
  · exact Or.inr ⟨_, _, rfl, staged_of_stage positive ‹_›⟩

theorem Staged.uploads (staged : f.Staged next (p.width * p.height * 4) start (t.padded f.atlas.config.padding)) :
    Uploads f.atlas next.staging start p t where
  aligned := staged.aligned
  inside := staged.inside
  staged := fun fits => staged.holds (by rw [Texture.padded_size, fits.width, fits.height])

theorem Staged.sound {count : Nat} {bytes : ByteArray} (staged : f.Staged next count start bytes)
    (sound : f.Sound promised waiting tracked accepted todo) : next.Sound promised waiting tracked accepted todo := by
  obtain ⟨live, reaches, atlas⟩ := sound
  exact ⟨live, staged.reached _ _ _ reaches, by rwa [staged.atlas]⟩

theorem within_upload {img : OwnedImage} {handles used : Nat} (known : img.handle ≤ handles)
    (inUse : start + p.width * p.height * 4 ≤ used) : ∀ c ∈ [uploadCommand img start p], c.Within handles used := by
  intro c member
  cases List.mem_singleton.mp member
  exact ⟨known, inUse⟩

theorem Sound.uploadWaiting (sound : f.Sound promised waiting tracked accepted todo) (id : Nat) :
    (f.uploadWaiting id).Sound promised waiting tracked accepted todo := by
  have positive : 0 < f.atlas.alignment := sound.choose_spec.2.alignment_pos
  unfold Frame.uploadWaiting
  split
  · rename_i t p texture placed
    rcases stageTexture_cases positive t p with full | ⟨start, next, fits, staged⟩
    · rw [full]
      exact (sound.announce _).modifyAtlas fun live atlas => { atlas with }
    · rw [fits]
      have sameAtlas := staged.atlas
      have uploads := staged.uploads
      rw [← sameAtlas] at texture placed uploads
      obtain ⟨live, reaches, atlas⟩ := (staged.sound sound).turnLive .transferTarget
      have ready := turnLive_layout next .transferTarget
      obtain ⟨after, runs, redrawn, holds⟩ :=
        atlas.uploadLive texture placed ready ⟨uploads.aligned, uploads.inside, uploads.staged⟩
      obtain ⟨i, tracks⟩ := atlas.image
      have recorded := reaches.record runs (within_upload (reaches.handles ▸ tracks.known) staged.used)
      exact ⟨after, recorded.modifyAtlas _, redrawn.show texture placed holds⟩
  · exact sound

theorem turnRepack_eq {r : Repack} (running : f.atlas.repack = some r) (layout : Layout) :
    (f.turnRepack layout).atlas = { f.atlas with repack := some { r with image := (r.image.turn layout).1 } } ∧
      (f.turnRepack layout).staging = f.staging := by
  unfold turnRepack
  rw [running]
  exact ⟨rfl, rfl⟩

/-- A staged texture is copied to its planned place in the image of the repack. -/
theorem Sound.uploadStaged {r : Repack} {rest : List Nat}
    (sound : f.Sound promised waiting tracked accepted (id :: rest)) (running : f.atlas.repack = some r)
    (texture : (f.atlas.slot id).texture = some t) (planned : r.places.get? id = some p)
    (uploads : Uploads f.atlas f.staging start p t)
    (inUse : start + p.width * p.height * 4 ≤ f.staging.used) :
    ((f.turnRepack .transferTarget).record [uploadCommand r.image start p]).Sound promised waiting tracked accepted
      rest := by
  obtain ⟨turned, sameStaging⟩ := turnRepack_eq running .transferTarget
  obtain ⟨live, reaches, atlas⟩ := sound.turnRepack .transferTarget
  have sameCommand : uploadCommand r.image start p = uploadCommand (r.image.turn .transferTarget).1 start p := by
    rw [uploadCommand, uploadCommand, OwnedImage.turn_handle]
  have runningTurned : (f.turnRepack .transferTarget).atlas.repack =
      some { r with image := (r.image.turn .transferTarget).1 } := by rw [turned]
  have textureTurned : ((f.turnRepack .transferTarget).atlas.slot id).texture = some t := by
    rw [turned]
    exact texture
  have uploadsTurned : Uploads (f.turnRepack .transferTarget).atlas (f.turnRepack .transferTarget).staging
      start p t := by
    rw [turned, sameStaging]
    exact ⟨uploads.aligned, uploads.inside, uploads.staged⟩
  obtain ⟨after, runs, redrawn, holds⟩ :=
    atlas.uploadRepack runningTurned textureTurned planned (OwnedImage.turn_layout _ _) uploadsTurned
  obtain ⟨i, tracks⟩ := (atlas.repack _ runningTurned).tracked
  rw [sameCommand]
  rw [← sameStaging] at inUse
  refine ⟨after, reaches.record runs (within_upload (reaches.handles ▸ tracks.known) inUse), redrawn.done ?_⟩
  intro other u q isOther isTexture plans
  cases runningTurned.symm.trans isOther
  cases textureTurned.symm.trans isTexture
  cases planned.symm.trans plans.planned
  exact Or.inr (holds plans.fits)

theorem Sound.uploadPlanned {rest : List Nat} (sound : f.Sound promised waiting tracked accepted (id :: rest))
    (written : Bool) : (uploadPlanned (written, f) id).2.Sound promised waiting tracked accepted rest := by
  have positive : 0 < f.atlas.alignment := sound.choose_spec.2.alignment_pos
  simp only [Frame.uploadPlanned]
  split
  · rename_i r t running texture
    split
    · rename_i unplanned
      obtain ⟨live, reaches, atlas⟩ := sound
      refine ⟨live, reaches, atlas.done ?_⟩
      intro other _ p isOther _ plans
      cases running.symm.trans isOther
      cases unplanned.symm.trans plans.planned
    · rename_i p planned
      rcases stageTexture_cases positive t p with full | ⟨start, next, fits, staged⟩
      · simp only [full]
        obtain ⟨live, reaches, atlas⟩ := sound
        refine ⟨live, (reaches.announce _).modifyAtlas _, ?_⟩
        rw [Frame.modifyAtlas, announce_atlas, running]
        exact atlas.putBack running texture
      · simp only [fits]
        have uploads := staged.uploads
        rw [← staged.atlas] at texture running uploads
        exact (staged.sound sound).uploadStaged running texture planned uploads staged.used
  · rename_i neither
    obtain ⟨live, reaches, atlas⟩ := sound
    refine ⟨live, reaches, atlas.done ?_⟩
    intro r t p running texture _
    exact absurd texture (neither r t running)

theorem Sound.uploadTable (sound : f.Sound promised waiting tracked accepted todo) :
    f.uploadTable.Sound promised waiting tracked accepted todo := by
  unfold Frame.uploadTable
  split
  · simp only
    split
    · exact sound.announce _
    · rename_i start next found
      have staged := staged_of_stage sound.choose_spec.2.alignment_pos found
      obtain ⟨live, reaches, atlas⟩ := staged.sound sound
      rw [← staged.atlas]
      have aligned := Nat.dvd_trans atlas.aligned (staged.atlas ▸ staged.aligned)
      obtain ⟨after, runs⟩ := atlas.table.upload aligned (staged.atlas ▸ staged.inside)
      refine ⟨after, (reaches.record runs ?_).modifyAtlas _, { atlas.untouched runs with }⟩
      have known := reaches.handles ▸ atlas.table.known
      have inUse : start + next.atlas.config.tableBytes ≤ next.staging.used := staged.atlas ▸ staged.used
      intro c member
      rcases List.mem_cons.mp member with rfl | last
      · exact ⟨known, inUse⟩
      · cases List.mem_singleton.mp last
        exact known
  · exact sound

theorem Sound.finishRepack (sound : f.Sound promised waiting tracked accepted []) (written : Bool) :
    (f.finishRepack written).Sound promised waiting tracked accepted [] := by
  have turned : (if written then f.turnRepack .shaderRead else f).Sound promised waiting tracked accepted [] := by
    split
    · exact sound.turnRepack .shaderRead
    · exact sound
  rw [Frame.finishRepack]
  apply turned.modifyAtlas
  intro live atlas
  apply atlas.advance
  intro r
  split
  · exact Or.inr ⟨.waiting, rfl, fun _ => ‹_›⟩
  · exact Or.inl rfl

/-- All ids of a repack are done with, one after the other. -/
theorem Sound.uploadAllPlanned {ids : List Nat} {written : Bool × Frame}
    (sound : written.2.Sound promised waiting tracked accepted ids) :
    (ids.foldl Frame.uploadPlanned written).2.Sound promised waiting tracked accepted [] := by
  induction ids generalizing written with
  | nil => exact sound
  | cons id rest ih => exact ih (sound.uploadPlanned written.1)

theorem Sound.finish {planned : List Nat} (sound : f.Sound promised waiting tracked accepted planned) :
    (f.finish planned).Sound promised waiting tracked accepted [] := by
  have uploaded : (planned.foldl Frame.uploadPlanned (false, f)).2.Sound promised waiting tracked accepted [] :=
    Sound.uploadAllPlanned sound
  exact (uploaded.uploadTable.turnLive .shaderRead).finishRepack _

theorem Sound.uploadAllWaiting {ids : List Nat} (sound : f.Sound promised waiting tracked accepted todo) :
    (ids.foldl Frame.uploadWaiting f).Sound promised waiting tracked accepted todo := by
  induction ids generalizing f with
  | nil => exact sound
  | cons id rest ih => exact ih (sound.uploadWaiting id)

end Frame

end TextureLoom.Atlas
