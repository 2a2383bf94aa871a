import Mathlib.Data.List.Induction
import TextureLoom.Proofs.Atlas.Carrying
import TextureLoom.Proofs.Atlas.Heeding
import TextureLoom.Proofs.Atlas.Matching

set_option autoImplicit false

namespace TextureLoom.Atlas

variable {accepted : Nat → Option PixelBuffer} {f : Frame} {id : Nat} {t : Texture}

/-- What becomes of data that was set since it was uploaded into the image of a repack, where a flush shows that. -/
theorem Frame.outcome_of_shown (queued : Queued accepted f.atlas) {r : Repack} (running : f.atlas.repack = some r)
    (isReady : r.progress = .ready) {p : Placement} (texture : (f.atlas.slot id).texture = some t)
    (planned : r.places.get? id = some p) (waits : f.atlas.isPending id = true) :
    Outcome id t { f.atlas.slot id with place := some p }.uploaded f.flush := by
  rcases f.adoptReady_cases with ⟨o, isRepack, _, isAtlas⟩ | ⟨unready, _⟩
  · cases running.symm.trans isRepack
    have slot : f.adoptReady.atlas.slot id = { f.atlas.slot id with place := some p }.uploaded := by
      rw [isAtlas]
      exact slot_of_adopt queued texture planned
    have stillWaits : f.adoptReady.atlas.isPending id = true := by
      rw [isAtlas]
      exact (queued.isPending_adopt r id).mpr (Or.inl waits)
    have outcome := outcome_flush (queued.leads f.leads_adoptReady) (by rw [slot]; exact texture) stillWaits
    rw [slot] at outcome
    exact outcome
  · exact absurd isReady (unready r running)

namespace World

/-- In the course of the actions the data of an id was recorded for upload to a place of an image; none was set since,
and where the image was copied the place came along. -/
inductive UploadRecorded (w : World) (id : Nat) : List Action → Nat → Placement → Prop where
  | upload {done : List Action} {t : Texture} {handle : Nat} {p : Placement} :
      ((done.foldl step w).atlas.slot id).texture = some t →
      (done.foldl step w).frame.flush.Records handle t p → UploadRecorded w id (done ++ [.flush]) handle p
  | call {done : List Action} {action : Action} {handle : Nat} {p : Placement} :
      UploadRecorded w id done handle p → action ≠ .flush →
      ((done.foldl step w).atlas.slot id).SameData (((done.foldl step w).step action).atlas.slot id) →
      UploadRecorded w id (done ++ [action]) handle p
  | flush {done : List Action} {handle later : Nat} {p : Placement} : UploadRecorded w id done handle p →
      Carries p handle (done.foldl step w).recorded.commands later →
      UploadRecorded w id (done ++ [.flush]) later p

/-- Each id that is valid behind the actions does not wait, and its data was recorded for upload to its place in the
live image. -/
def ValidUploaded (w : World) (done : List Action) : Prop :=
  ∀ id, ((done.foldl step w).atlas.slot id).status = .valid → (done.foldl step w).atlas.isPending id = false ∧
    ∃ p, (done.foldl step w).atlas.placement? id = some p ∧
      w.UploadRecorded id done (done.foldl step w).atlas.image.handle p

/-- If the next flush shows the image of a repack, it uploads what was set since that was filled. -/
def KeepsUp (w : World) : Prop :=
  ∀ r, w.atlas.repack = some r → r.progress = .ready → ∀ id, (w.atlas.slot id).texture.isSome →
    (r.places.get? id).isSome → w.atlas.isPending id = true → (w.step .flush).atlas.isPending id = false

/-- What is valid is uploaded, and so is what a running repack has planned and not queued; once that is ready, whatever
is queued for it waits for the live image too. -/
structure Caught (w : World) (done : List Action) : Prop where
  live : w.ValidUploaded done
  repack : ∀ r, (done.foldl step w).atlas.repack = some r → ∀ id p,
    ((done.foldl step w).atlas.slot id).texture.isSome → (done.foldl step w).atlas.planAt id = some (some p, false) →
    w.UploadRecorded id done r.image.handle p
  ready : ∀ r, (done.foldl step w).atlas.repack = some r → r.progress = .ready → ∀ id place,
    (done.foldl step w).atlas.planAt id = some (place, true) → (done.foldl step w).atlas.isPending id = true

namespace Caught

variable {w : World} {done : List Action} {action : Action}

theorem foldl_snoc (w : World) (done : List Action) (action : Action) :
    (done ++ [action]).foldl step w = (done.foldl step w).step action := by
  rw [List.foldl_append, List.foldl_cons, List.foldl_nil]

/-- What a call keeps. -/
theorem call (caught : w.Caught done) (queued : Queued accepted (done.foldl step w).atlas) (other : action ≠ .flush) :
    w.Caught (done ++ [action]) := by
  have call := call_of_step queued.orderly other
  obtain ⟨changed, queuedNext⟩ := queued.step action
  have recorded : ∀ id handle p, w.UploadRecorded id done handle p →
      ((done.foldl step w).step action).atlas.slot id = (done.foldl step w).atlas.slot id →
      w.UploadRecorded id (done ++ [action]) handle p := by
    intro id handle p before same
    refine .call before other ?_
    rw [same]
    exact .refl _
  obtain ⟨live, repack, ready⟩ := caught
  refine ⟨?_, ?_, ?_⟩
  · intro id
    rw [foldl_snoc]
    intro valid
    rw [call.image]
    cases call.concerns queued id with
    | others slot waits _ =>
      rw [slot] at valid
      obtain ⟨idle, p, placed, uploaded⟩ := live id valid
      refine ⟨waits.trans idle, p, ?_, recorded id _ p uploaded slot⟩
      rw [placement?, slot]
      exact placed
    | handedOut slot _ _ =>
      rw [slot] at valid
      cases valid
    | emptied _ invalid _ _ => exact absurd valid invalid
    | loaded _ status _ _ => cases status.symm.trans valid
  · rw [foldl_snoc]
    intro r running id p hasTexture isPlan
    obtain ⟨o, isOld, image, _⟩ := call.repack running
    rw [image]
    cases call.concerns queued id with
    | others slot _ same =>
      rw [slot] at hasTexture
      rw [same] at isPlan
      exact recorded id _ p (repack o isOld id p hasTexture isPlan) slot
    | handedOut slot _ _ =>
      rw [slot] at hasTexture
      cases hasTexture
    | emptied none _ _ _ =>
      rw [none] at hasTexture
      cases hasTexture
    | loaded _ _ _ joins =>
      rcases joins (some p) false isPlan with absent | ⟨absent, _⟩
      · cases absent
      · cases absent
  · rw [foldl_snoc]
    intro r running isReady id place isPlan
    obtain ⟨o, isOld, _, progress⟩ := call.repack running
    rcases progress with same | empty
    · have before := ready o isOld (same.symm.trans isReady) id place
      cases call.concerns queued id with
      | others _ waits samePlan => exact waits.trans (before (samePlan.symm.trans isPlan))
      | handedOut _ waits samePlan => exact waits.trans (before (samePlan.symm.trans isPlan))
      | emptied _ _ _ unqueued =>
        obtain ⟨_, _, isPair⟩ := Option.map_eq_some_iff.mp (unqueued.symm.trans isPlan)
        cases (Prod.mk.inj isPair).2
      | loaded _ _ waits _ => exact waits
    · -- Nothing was queued when the repack became ready.
      have waits := (Prod.mk.inj (Option.some.inj ((planAt_of_running running id).symm.trans isPlan))).2
      have unqueued := Queue.not_contains_of_isEmpty (queuedNext.queue r running) empty id
      cases unqueued.symm.trans waits

/-- Once a ready repack is shown, what is valid and does not wait was recorded for upload into the live image. -/
theorem adoptReady (caught : w.Caught done) (queued : Queued accepted (done.foldl step w).atlas)
    (valid : ((done.foldl step w).frame.adoptReady.atlas.slot id).status = .valid)
    (idle : (done.foldl step w).frame.adoptReady.atlas.isPending id = false) :
    ∃ p, (done.foldl step w).frame.adoptReady.atlas.placement? id = some p ∧
      w.UploadRecorded id done (done.foldl step w).frame.adoptReady.atlas.image.handle p := by
  rcases (done.foldl step w).frame.adoptReady_cases with ⟨r, running, isReady, isAtlas⟩ | ⟨_, isAtlas⟩
  · rw [isAtlas] at valid idle ⊢
    obtain ⟨t, p, texture, planned⟩ := planned_of_valid queued valid
    have isPlan := planAt_of_running running id
    rw [planned] at isPlan
    rcases waits : r.queue.contains id with _ | _
    · rw [waits] at isPlan
      have uploaded := caught.repack r running id p (Option.isSome_iff_exists.mpr ⟨t, texture⟩) isPlan
      have image : ((done.foldl step w).frame.atlas.adopt r).image = r.image := (adopts_adopt queued.registry r).image
      rw [image]
      exact ⟨p, congrArg Slot.place (slot_of_adopt queued texture planned), uploaded⟩
    · rw [waits] at isPlan
      have isPending := caught.ready r running isReady id (some p) isPlan
      cases ((queued.isPending_adopt r id).mpr (Or.inl isPending)).symm.trans idle
  · rw [isAtlas] at valid idle ⊢
    exact (caught.live id valid).2

/-- What is valid and waits once a ready repack is shown is uploaded by the same flush. -/
theorem keepsUp (caught : w.Caught done) (queued : Queued accepted (done.foldl step w).atlas)
    (keeps : (done.foldl step w).KeepsUp)
    (valid : ((done.foldl step w).frame.adoptReady.atlas.slot id).status = .valid)
    (waits : (done.foldl step w).frame.adoptReady.atlas.isPending id = true) :
    ((done.foldl step w).step .flush).atlas.isPending id = false := by
  rcases (done.foldl step w).frame.adoptReady_cases with ⟨r, running, isReady, isAtlas⟩ | ⟨_, isAtlas⟩
  · rw [isAtlas] at valid waits
    obtain ⟨t, p, texture, planned⟩ := planned_of_valid queued valid
    have isPending := ((queued.isPending_adopt r id).mp waits).resolve_right fun both => by
      cases both.2.symm.trans planned
    exact keeps r running isReady id (Option.isSome_iff_exists.mpr ⟨t, texture⟩)
      (Option.isSome_iff_exists.mpr ⟨p, planned⟩) isPending
  · rw [isAtlas] at valid waits
    cases (caught.live id valid).1.symm.trans waits

/-- What is valid behind a flush is uploaded. -/
theorem live_flush (caught : w.Caught done) (queued : Queued accepted (done.foldl step w).atlas)
    (keeps : (done.foldl step w).KeepsUp) : w.ValidUploaded (done ++ [.flush]) := by
  have adopted : Queued accepted (done.foldl step w).frame.adoptReady.atlas :=
    queued.leads (done.foldl step w).frame.leads_adoptReady
  intro id
  rw [foldl_snoc]
  intro valid
  rcases waits : (done.foldl step w).frame.adoptReady.atlas.isPending id with _ | _
  · obtain ⟨slot, stays⟩ := Frame.flush_of_idle adopted waits
    have validAt : ((done.foldl step w).frame.adoptReady.atlas.slot id).status = .valid := slot ▸ valid
    obtain ⟨p, placed, uploaded⟩ := caught.adoptReady queued validAt waits
    refine ⟨stays, p, (congrArg Slot.place slot).trans placed, .flush uploaded ?_⟩
    obtain ⟨_, more, isMore, carries⟩ :=
      (done.foldl step w).frame.conveys_flush (adopted.packed.sound.within id p placed)
    rw [(done.foldl step w).frame.adoptReady_keeps.2.2] at isMore
    have isRecorded : (done.foldl step w).recorded.commands = more := isMore
    rw [isRecorded]
    exact carries
  · have flushed : Queued accepted (done.foldl step w).frame.flush.atlas :=
      queued.leads (done.foldl step w).frame.leads_flush
    have slotSound : ((done.foldl step w).frame.flush.atlas.slot id).Sound (accepted id) :=
      flushed.registry.sound id
    obtain ⟨t, isTexture⟩ := Option.isSome_iff_exists.mp (slotSound.texture_of_valid valid)
    have texture := ((done.foldl step w).frame.leads_flush.sameData queued id).texture.symm.trans isTexture
    have textureAt := ((done.foldl step w).frame.leads_adoptReady.sameData queued id).texture.trans texture
    cases Frame.outcome_flush adopted textureAt waits with
    | putOff slot _ stays =>
      have validAt : ((done.foldl step w).frame.adoptReady.atlas.slot id).status = .valid :=
        (congrArg Slot.status slot).symm.trans valid
      cases stays.symm.trans (caught.keepsUp queued keeps validAt waits)
    | uploaded slot stays records => exact ⟨stays, _, congrArg Slot.place slot, .upload texture records⟩

/-- What a repack that goes on has planned and not queued is uploaded for it. -/
theorem repack_flush (caught : w.Caught done) (queued : Queued accepted (done.foldl step w).atlas) {s : Repack}
    {p : Placement} (isLast : (done.foldl step w).frame.flush.atlas.repack = some s)
    (texture : ((done.foldl step w).atlas.slot id).texture = some t) (planned : s.places.get? id = some p)
    (unqueued : s.queue.contains id = false) : w.UploadRecorded id (done ++ [.flush]) s.image.handle p := by
  have textureAt := ((done.foldl step w).frame.leads_adoptReady.sameData queued id).texture.trans texture
  obtain ⟨idle, goesOn⟩ := Frame.planned_flush (queued.leads (done.foldl step w).frame.leads_adoptReady)
  rcases running : (done.foldl step w).frame.adoptReady.startRequested.atlas.repack with _ | r
  · cases (idle running).symm.trans isLast
  · obtain ⟨_, isRepack, continues, each⟩ := goesOn r running
    cases isRepack.symm.trans isLast
    rw [continues.places] at planned
    rw [continues.handle]
    rcases waits : r.queue.contains id with _ | _
    · rcases Frame.running_cases queued running with ⟨before, _, _⟩ | ⟨_, all, _⟩
      · have isPlan := planAt_of_running before id
        rw [planned, waits] at isPlan
        exact .flush (caught.repack r before id p (Option.isSome_iff_exists.mpr ⟨t, texture⟩) isPlan) (.refl p _ _)
      · cases (all id (Option.isSome_iff_exists.mpr ⟨t, textureAt⟩)).symm.trans waits
    · rcases (each id).2 t p waits textureAt planned with again | records
      · cases unqueued.symm.trans again
      · exact .upload texture records

/-- What a flush keeps that keeps up. -/
theorem flush (caught : w.Caught done) (queued : Queued accepted (done.foldl step w).atlas)
    (keeps : (done.foldl step w).KeepsUp) : w.Caught (done ++ [.flush]) := by
  refine ⟨caught.live_flush queued keeps, ?_, ?_⟩
  · rw [foldl_snoc]
    intro s isLast id p hasTexture isPlan
    obtain ⟨t, isTexture⟩ := Option.isSome_iff_exists.mp hasTexture
    have texture := ((done.foldl step w).frame.leads_flush.sameData queued id).texture.symm.trans isTexture
    obtain ⟨planned, unqueued⟩ := Prod.mk.inj (Option.some.inj ((planAt_of_running isLast id).symm.trans isPlan))
    exact caught.repack_flush queued isLast texture planned unqueued
  · rw [foldl_snoc]
    exact fun s isLast isReady => absurd isReady (Frame.unready_flush queued isLast)

end Caught

variable {w : World} {actions done : List Action}

theorem caught_of_create {c : Config} {device : Device} {given : Option Staging}
    (created : Atlas.create c device given = .ok (w.atlas, w.device, w.staging)) : w.Caught [] := by
  obtain ⟨_, _, handle, _, isAtlas⟩ := create_eq_ok_iff.mp created
  refine ⟨fun id valid => ?_, fun r running => ?_, fun r running => ?_⟩
  all_goals rw [List.foldl_nil, isAtlas] at *
  · rw [slot_ofImage] at valid
    cases valid
  · cases running
  · cases running

/-- As long as each flush keeps up, what is valid is uploaded. -/
theorem caught_of_keepsUp {c : Config} {device : Device} {given : Option Staging}
    (created : Atlas.create c device given = .ok (w.atlas, w.device, w.staging))
    (keeps : ∀ done, done ++ [.flush] <+: actions → (done.foldl step w).KeepsUp) (isPrefix : done <+: actions) :
    w.Caught done := by
  induction done using List.reverseRecOn with
  | nil => exact caught_of_create created
  | append_singleton done action ih =>
    have caught := ih ((List.prefix_append done [action]).trans isPrefix)
    obtain ⟨accepted, heeded⟩ := (heeded_of_create created).run done
    by_cases flushes : action = .flush
    · subst flushes
      exact caught.flush heeded.toQueued (keeps done isPrefix)
    · exact caught.call heeded.toQueued flushes

/-- A flush that leaves what is valid uploaded has kept up. -/
theorem keepsUp_of_validUploaded (queued : Queued accepted (done.foldl step w).atlas)
    (uploaded : w.ValidUploaded (done ++ [.flush])) : (done.foldl step w).KeepsUp := by
  intro r running isReady id hasTexture hasPlace waits
  obtain ⟨t, texture⟩ := Option.isSome_iff_exists.mp hasTexture
  obtain ⟨p, planned⟩ := Option.isSome_iff_exists.mp hasPlace
  have behind := uploaded id
  rw [Caught.foldl_snoc] at behind
  have outcome := Frame.outcome_of_shown (f := (done.foldl step w).frame) queued running isReady texture planned waits
  cases outcome with
  | putOff slot _ _ => exact (behind (congrArg Slot.status slot)).1
  | uploaded _ idle _ => exact idle

/-- Only for lack of room a flush does not keep up. -/
theorem keepsUp_of_roomy (queued : Queued accepted w.atlas)
    (roomy : Event.stagingOverflow ∉ (w.atlas.flush w.device w.staging).events) : w.KeepsUp := by
  intro r running isReady id hasTexture hasPlace waits
  obtain ⟨t, texture⟩ := Option.isSome_iff_exists.mp hasTexture
  obtain ⟨p, planned⟩ := Option.isSome_iff_exists.mp hasPlace
  cases Frame.outcome_of_shown (f := w.frame) queued running isReady texture planned waits with
  | putOff _ announced _ => exact absurd (announced rfl).2 roomy
  | uploaded _ idle _ => exact idle

/-- All along, what is valid does not wait and was recorded for upload to its place in the live image, just if each
flush that shows the image of a repack uploads what was set since that was filled. A flush with room for all that it
stages does. -/
theorem validUploaded_iff {c : Config} {device : Device} {given : Option Staging}
    (created : Atlas.create c device given = .ok (w.atlas, w.device, w.staging)) (actions : List Action) :
    ((∀ done, done <+: actions → w.ValidUploaded done) ↔
      ∀ done, done ++ [.flush] <+: actions → (done.foldl step w).KeepsUp) ∧
    ∀ done : List Action, Event.stagingOverflow ∉
        ((done.foldl step w).atlas.flush (done.foldl step w).device (done.foldl step w).staging).events →
      (done.foldl step w).KeepsUp := by
  refine ⟨⟨fun uploaded done isPrefix => ?_, fun keeps done isPrefix => ?_⟩, fun done roomy => ?_⟩
  · obtain ⟨accepted, heeded⟩ := (heeded_of_create created).run done
    exact keepsUp_of_validUploaded heeded.toQueued (uploaded _ isPrefix)
  · exact (caught_of_keepsUp created keeps isPrefix).live
  · obtain ⟨accepted, heeded⟩ := (heeded_of_create created).run done
    exact keepsUp_of_roomy heeded.toQueued roomy

theorem keepsUp_of_idle (idle : w.atlas.repack = none) : w.KeepsUp :=
  fun _ running => by cases idle.symm.trans running

/-- What holds at the start of each flush of the actions. -/
theorem flushes_cons {motive : World → Prop} {first : Action} {rest : List Action} (here : first = .flush → motive w)
    (later : ∀ done, done ++ [.flush] <+: rest → motive (done.foldl step (w.step first))) :
    ∀ done, done ++ [.flush] <+: first :: rest → motive (done.foldl step w) := by
  intro done isPrefix
  cases done with
  | nil => exact here (List.cons_prefix_cons.mp isPrefix).1.symm
  | cons action done =>
    obtain ⟨rfl, more⟩ := List.cons_prefix_cons.mp isPrefix
    exact later done more

theorem flushes_cons_of_ne {motive : World → Prop} {first : Action} {rest : List Action} (other : first ≠ .flush)
    (later : ∀ done, done ++ [.flush] <+: rest → motive (done.foldl step (w.step first))) :
    ∀ done, done ++ [.flush] <+: first :: rest → motive (done.foldl step w) :=
  flushes_cons (fun isFlush => absurd isFlush other) later

theorem flushes_of_no_flush {motive : World → Prop} {actions : List Action} (unflushed : Action.flush ∉ actions) :
    ∀ done, done ++ [.flush] <+: actions → motive (done.foldl step w) := by
  intro done isPrefix
  exact absurd (isPrefix.subset (List.mem_append_right done List.mem_cons_self)) unflushed

/-- A texture is drawn, a repack is asked for, and all that it takes is recorded and submitted. -/
def repacking : List Action := drawing ++ [.requestRepack .keepCapacity, .flush] ++ readying

theorem foldl_repacking : repacking.foldl step sample = readied := by
  simp only [repacking, List.foldl_append, List.foldl_cons, List.foldl_nil]
  rfl

theorem loaded_idle : loaded.atlas.repack.isNone := by decide +kernel

theorem keepsUp_readied : readied.KeepsUp := by
  obtain ⟨c, device, given, _, created, _⟩ := starts_sample
  obtain ⟨accepted, heeded⟩ := (heeded_of_create created).run repacking
  rw [foldl_repacking] at heeded
  exact keepsUp_of_roomy heeded.toQueued readied_swaps.2.2.1

/-- The flushes up to the one that shows the image of the repack. -/
theorem flushes_repacking {motive : World → Prop} (first : motive loaded) (second : motive asked)
    (third : motive readied) : ∀ done, done ++ [Action.flush] <+: repacking ++ [Action.flush] →
    motive (done.foldl step sample) := by
  simp only [loaded, List.foldl_cons, List.foldl_nil] at first
  simp only [asked, drawn, drawing, List.foldl_cons, List.foldl_nil] at second
  simp only [readied, readying, asked, drawn, drawing, List.foldl_cons, List.foldl_nil] at third
  simp only [repacking, drawing, readying, List.cons_append, List.nil_append]
  refine flushes_cons_of_ne (motive := motive) (by simp) (flushes_cons_of_ne (by simp) ?_)
  refine flushes_cons (motive := motive) (fun _ => first) (flushes_cons_of_ne (by simp) ?_)
  refine flushes_cons (motive := motive) (fun _ => second) (flushes_cons_of_ne (by simp) ?_)
  refine flushes_cons_of_ne (motive := motive) (by simp) (flushes_cons_of_ne (by simp) ?_)
  exact flushes_cons (motive := motive) (fun _ => third) (flushes_of_no_flush List.not_mem_nil)

theorem keepsUp_repacking : ∀ done, done ++ [Action.flush] <+: repacking ++ [Action.flush] →
    (done.foldl step sample).KeepsUp :=
  flushes_repacking (keepsUp_of_idle (Option.isNone_iff_eq_none.mp loaded_idle))
    (keepsUp_of_idle (Option.isNone_iff_eq_none.mp asked_starts.1)) keepsUp_readied

theorem valid_readied : (readied.step .flush).atlas.status? 2 = some .valid := by decide +kernel

theorem validUploaded_iff_repacking : (∃ c device given,
      Atlas.create c device given = .ok (sample.atlas, sample.device, sample.staging)) ∧
    (readied.step .flush).atlas.status? 2 = some .valid ∧ sample.ValidUploaded (repacking ++ [Action.flush]) := by
  obtain ⟨c, device, given, _, created, _⟩ := starts_sample
  refine ⟨⟨c, device, given, created⟩, valid_readied, ?_⟩
  exact (validUploaded_iff created (repacking ++ [Action.flush])).1.mpr keepsUp_repacking _ (List.prefix_refl _)

/-- Other pixels are set once the image of the repack is filled, and others take most of the staging buffer. -/
def resetting : List Action := [.set 2 1 1 0 ⟨#[10, 20, 30, 255]⟩, .reserve 140 1 ⟨#[]⟩]

def reset : World := resetting.foldl step readied

theorem reset_waits : (reset.step .flush).atlas.status? 2 = some .valid ∧
    (reset.step .flush).atlas.isPending 2 = true := by
  decide +kernel

theorem foldl_resetting : (repacking ++ resetting ++ [Action.flush]).foldl step sample = reset.step .flush := by
  rw [Caught.foldl_snoc, List.foldl_append, foldl_repacking, reset]

/-- The texture is valid behind the flush that shows the image of the repack, and its last pixels still wait. -/
theorem not_validUploaded_reset : (∃ c device given,
      Atlas.create c device given = .ok (sample.atlas, sample.device, sample.staging)) ∧
    ((repacking ++ resetting ++ [Action.flush]).foldl step sample).atlas.status? 2 = some .valid ∧
    ((repacking ++ resetting ++ [Action.flush]).foldl step sample).atlas.isPending 2 = true ∧
    ¬sample.ValidUploaded (repacking ++ resetting ++ [Action.flush]) := by
  obtain ⟨c, device, given, _, created, _⟩ := starts_sample
  obtain ⟨valid, waits⟩ := reset_waits
  rw [foldl_resetting]
  refine ⟨⟨c, device, given, created⟩, valid, waits, fun uploaded => ?_⟩
  have idle := uploaded 2
  rw [foldl_resetting] at idle
  cases waits.symm.trans (idle (status_of_status? valid)).1

end World

end TextureLoom.Atlas
