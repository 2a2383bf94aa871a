import Mathlib.Data.List.Nodup
import TextureLoom.Proofs.Atlas.Mirroring
import TextureLoom.Proofs.Atlas.Placing

set_option autoImplicit false

namespace TextureLoom.Atlas

variable {accepted : Nat → Option PixelBuffer} {a b : Atlas} {id : Nat} {t : Texture} {p : Placement}

/-- An empty buffer hands out its first bytes, if it has as many. -/
theorem Staging.nextRange?_of_unused {s : Staging} {count alignment : Nat} (unused : s.used = 0)
    (small : count < 0x10000000000000000) (narrow : alignment ≤ 0x10000000000000000) :
    s.nextRange? count alignment = if s.size < count then none else some (0, count) := by
  have first : (max alignment 1 - 1) / max alignment 1 = 0 := Nat.div_eq_of_lt (by omega)
  have inside : max alignment 1 - 1 < 0x10000000000000000 := by omega
  simp only [nextRange?, sum64?, unused, Nat.zero_add, if_pos inside, Option.bind_eq_bind, Option.bind_some, first,
    Nat.zero_mul, if_pos small]

/-- Only ids with data wait. -/
def Founded (a : Atlas) : Prop := ∀ id, a.isPending id = true → (a.slot id).texture.isSome

theorem Founded.call (founded : a.Founded) (call : Call a b) (queued : Queued accepted a) : b.Founded := by
  intro id waits
  cases call.concerns queued id with
  | others slot pending _ =>
    rw [slot]
    exact founded id (pending.symm.trans waits)
  | handedOut _ pending _ none =>
    have hasTexture := founded id (pending.symm.trans waits)
    rw [none] at hasTexture
    cases hasTexture
  | emptied _ _ idle _ => cases idle.symm.trans waits
  | loaded texture _ _ _ =>
    rw [texture]
    rfl

namespace Frame

variable {f : Frame}

theorem founded_adoptReady (founded : f.atlas.Founded) (queued : Queued accepted f.atlas) :
    f.adoptReady.atlas.Founded := by
  intro id waits
  rw [(f.leads_adoptReady.sameData queued id).texture]
  rcases f.adoptReady_cases with ⟨r, _, _, isAtlas⟩ | ⟨_, isAtlas⟩
  · rw [isAtlas] at waits
    rcases (queued.isPending_adopt r id).mp waits with before | unplanned
    · exact founded id before
    · exact unplanned.1
  · rw [isAtlas] at waits
    exact founded id waits

theorem founded_flush (founded : f.atlas.Founded) (queued : Queued accepted f.atlas) : f.flush.atlas.Founded := by
  intro id waits
  have adopted := founded_adoptReady founded queued
  have same := (f.leads_adoptReady.sameData queued id).texture
  rw [(f.leads_flush.sameData queued id).texture, ← same]
  rcases before : f.adoptReady.atlas.isPending id with _ | _
  · have idle := (flush_of_idle (queued.leads f.leads_adoptReady) before).2
    cases idle.symm.trans waits
  · exact adopted id before

/-- A texture with a place waits on just if its bytes cannot be staged. -/
theorem isPending_uploadWaiting (queued : Queued accepted f.atlas) (texture : (f.atlas.slot id).texture = some t)
    (placed : (f.atlas.slot id).place = some p) (idle : f.atlas.isPending id = false) :
    (f.uploadWaiting id).atlas.isPending id =
      (f.staging.nextRange? (p.width * p.height * 4) f.atlas.alignment).isNone := by
  have isPlaced : f.atlas.placement? id = some p := placed
  unfold uploadWaiting stageTexture
  rw [texture, isPlaced]
  rcases range : f.staging.nextRange? (p.width * p.height * 4) f.atlas.alignment with _ | ⟨start, stop⟩
  · have full : f.stage (p.width * p.height * 4) (t.padded f.atlas.config.padding) = none := by rw [stage, range]
    simp only [full, modifyAtlas, announce_atlas]
    exact queued.pending.contains_push_self (queued.lt_of_texture texture).2
  · have staged : f.stage (p.width * p.height * 4) (t.padded f.atlas.config.padding) =
        some (start, { f with staging := (f.staging.use stop).write start (t.padded f.atlas.config.padding) }) := by
      rw [stage, range]
    simp only [staged]
    exact (upload_keeps (atlas_of_stage staged) id id).2.1.trans idle

/-- Trying to upload an id leaves all places as they are. -/
theorem place_uploadWaiting (f : Frame) (tried id : Nat) :
    ((f.uploadWaiting tried).atlas.slot id).place = (f.atlas.slot id).place := by
  rcases uploadWaiting_cases f tried with ⟨_, same⟩ | ⟨t, p, _, _, full | ⟨start, next, staged, isUploaded⟩⟩
  · rw [same]
  · rw [full, modifyAtlas, announce_atlas]
    rfl
  · have slotOf : (f.uploadWaiting tried).atlas.slot id = (f.atlas.modifySlot tried Slot.uploaded).slot id := by
      rw [isUploaded, ← atlas_of_stage staged]
      exact slot_showPlace ((next.turnLive .transferTarget).atlas.modifySlot tried Slot.uploaded) tried id
    rw [slotOf, slot_modifySlot]
    split
    · rename_i both
      rw [both.1]
      rfl
    · rfl

theorem count_lt_of_within {c : Capacity} (within : p.Within c) (allowed : c.side ∈ allowedSides) :
    p.width * p.height * 4 < 0x10000000000000000 := by
  have short : c.side ≤ 4096 := le_largestSide allowed
  have columns := within.columns
  have rows := within.rows
  have area : p.width * p.height ≤ 4096 * 4096 := Nat.mul_le_mul (by omega) (by omega)
  omega

/-- An id that waits alone, with an empty staging buffer, waits on just if the buffer is too small for its place. -/
theorem isPending_flush_of_alone (queued : Queued accepted f.atlas) (running : f.atlas.repack = none)
    (texture : (f.atlas.slot id).texture = some t) (alone : ∀ other, f.atlas.isPending other = true ↔ other = id)
    (unused : f.staging.used = 0) (narrow : f.atlas.alignment ≤ 0x10000000000000000)
    (placed : f.flush.atlas.placement? id = some p) :
    f.flush.atlas.isPending id = true ↔ f.staging.size < p.width * p.height * 4 := by
  have ids : f.atlas.pending.drain.1 = [id] := by
    apply List.perm_singleton.mp
    refine (List.perm_ext_iff_of_nodup (Queue.nodup_drain _).1 (List.nodup_singleton id)).mpr fun other => ?_
    rw [List.mem_singleton, queued.pending.mem_drain_iff]
    exact alone other
  obtain ⟨planned, _, isFlush⟩ := f.flush_gathered
  obtain ⟨taken, slots, pending, _⟩ := f.taken_gathered
  rw [adoptReady_of_idle running] at isFlush taken slots pending
  rw [ids, List.foldl_cons, List.foldl_nil] at isFlush
  have textureAt : (f.gathered.atlas.slot id).texture = some t := by rw [slot, slots, ← slot, texture]
  have untaken : f.gathered.atlas.isPending id = false := by
    rw [isPending, pending]
    exact queued.pending.not_contains_drain id
  have gathered : Queued accepted f.gathered.atlas := queued.leads taken.leads
  have works := works_placeAllWaiting f.gathered [id]
  have staging := (staging_placeAllWaiting f.gathered [id]).trans f.staging_gathered
  have alignment := (taken.trans works).leads.fixes.alignment
  have placing := placed_waiting gathered (List.nodup_singleton id) (List.mem_singleton_self id) textureAt
  have next : Queued accepted (f.gathered.placeAllWaiting [id]).atlas := gathered.leads works.leads
  generalize f.gathered.placeAllWaiting [id] = g at isFlush staging alignment placing next
  -- From here on the id has the place that it is flushed with, and the buffer is as empty as before.
  have texturePlaced : (g.atlas.slot id).texture = some t := by
    rcases placing with ⟨_, same, _⟩ | ⟨_, same, _⟩ <;> rw [same, textureAt]
  have steady := steady_finish (g.uploadWaiting id) planned
  have place : (g.atlas.slot id).place = some p := by
    rw [← place_uploadWaiting g id id, ← steady.slotOf id, ← isFlush]
    exact placed
  have idle : g.atlas.isPending id = false := by
    rcases placing with ⟨_, _, same⟩ | ⟨none, same, _⟩
    · rw [same, untaken]
    · rw [same, none] at place
      cases place
  have small := count_lt_of_within (next.packed.sound.within id p place) next.side
  have unusedAt : g.staging.used = 0 := by rw [staging, unused]
  rw [isFlush, steady.isPending, isPending_uploadWaiting next texturePlaced place idle,
    Staging.nextRange?_of_unused unusedAt small (alignment ▸ narrow), staging]
  split
  · rename_i large
    exact iff_of_true rfl large
  · rename_i fits
    exact iff_of_false Bool.false_ne_true fits

end Frame

namespace World

variable {w v last : World}

/-- What no action changes: what an atlas was set up with, and the size of its staging buffer. -/
structure Endures (w v : World) : Prop where
  fixes : Fixes w.atlas v.atlas
  size : v.staging.size = w.staging.size

theorem Endures.trans (first : Endures w v) (second : Endures v last) : Endures w last :=
  ⟨first.fixes.trans second.fixes, second.size.trans first.size⟩

theorem endures_step (orderly : w.atlas.Orderly) (action : Action) : Endures w (w.step action) := by
  have fixes : Fixes w.atlas (w.step action).atlas := by
    by_cases flushes : action = .flush
    · rw [flushes]
      exact fixes_flush w
    · exact (call_of_step orderly flushes).fixes
  refine ⟨fixes, ?_⟩
  cases action with
  | set id width height pitch bytes => rw [(step_set_keeps w id width height pitch bytes).2.1]
  | flush =>
    obtain ⟨_, registry⟩ := orderly.registry
    exact (leavesTable_flush registry orderly.positive w.device w.staging).2.size
  | submit =>
    simp only [step]
    split <;> rfl
  | reserve count alignment bytes =>
    simp only [step]
    split
    · rfl
    · rename_i start staging taken
      obtain ⟨⟨_, stop⟩, _, isRange⟩ := Option.map_eq_some_iff.mp taken
      cases isRange
      exact Bytes.blit_size _ _ _ _ _
  | register | clear _ | remove _ | requestLayers _ | requestRepack _ | finish | limitMemory _ => rfl

theorem endures_foldl (orderly : w.atlas.Orderly) (actions : List Action) : Endures w (actions.foldl step w) := by
  induction actions generalizing w with
  | nil => exact ⟨.refl _, rfl⟩
  | cons action rest ih =>
    exact (endures_step orderly action).trans (ih (succeeds_step orderly action).toOrderly)

/-- What calls and flushes keep, any actions keep. -/
theorem kept_foldl {motive : Atlas → Prop} (heeded : Heeded accepted w.atlas) (start : motive w.atlas)
    (call : ∀ accepted a b, Queued accepted a → Call a b → motive a → motive b)
    (flush : ∀ accepted (f : Frame), Queued accepted f.atlas → motive f.atlas → motive f.flush.atlas)
    (actions : List Action) : motive (actions.foldl step w).atlas := by
  induction actions generalizing w accepted with
  | nil => exact start
  | cons action rest ih =>
    obtain ⟨_, stepped⟩ := heeded.step action
    apply ih stepped
    by_cases flushes : action = .flush
    · rw [flushes]
      exact flush accepted w.frame heeded.toQueued start
    · exact call accepted w.atlas _ heeded.toQueued (call_of_step heeded.orderly flushes) start

theorem founded_foldl {c : Config} {device : Device} {given : Option Staging}
    (created : Atlas.create c device given = .ok (w.atlas, w.device, w.staging)) (actions : List Action) :
    (actions.foldl step w).atlas.Founded := by
  apply kept_foldl (heeded_of_create created)
  · obtain ⟨_, _, handle, _, isAtlas⟩ := create_eq_ok_iff.mp created
    rw [isAtlas]
    intro id waits
    have idle := Queue.not_contains_of_isEmpty (Queue.sound_create c.maxTextureId) rfl id
    cases idle.symm.trans waits
  · exact fun _ _ _ queued call founded => founded.call call queued
  · exact fun _ _ queued founded => Frame.founded_flush founded queued

theorem size_of_stagingFor {c : Config} {staging : Staging} (own : stagingFor c none = .ok staging) :
    staging.size = c.stagingBytes := by
  unfold stagingFor Staging.create at own
  dsimp only at own
  split at own
  · cases own
  · simp only [bind, Except.bind, pure, Except.pure] at own
    split at own
    · cases own
    · cases own
      exact Bytes.zeros_size _

/-- With an empty staging buffer of its own, an atlas uploads an id that waits alone and has a place once it is flushed,
just if the buffer could hold the bytes of the place; otherwise the id waits on as it is. -/
theorem uploads_iff_fits {c : Config} {device : Device}
    (created : Atlas.create c device none = .ok (w.atlas, w.device, w.staging))
    (narrow : w.device.alignment < 0x10000000000000000) (actions : List Action)
    (unused : (actions.foldl step w).staging.used = 0) (idle : (actions.foldl step w).atlas.repack = none)
    (alone : ∀ other, (actions.foldl step w).atlas.isPending other = true ↔ other = id)
    (placed : ((actions.foldl step w).step .flush).atlas.placement? id = some p) :
    ((((actions.foldl step w).step .flush).atlas.slot id).status = .valid ∧
        ((actions.foldl step w).step .flush).atlas.isPending id = false ↔
      p.width * p.height * 4 ≤ c.stagingBytes) ∧
    (c.stagingBytes < p.width * p.height * 4 →
      (((actions.foldl step w).step .flush).atlas.slot id).status = ((actions.foldl step w).atlas.slot id).status ∧
        ((actions.foldl step w).step .flush).atlas.isPending id = true) := by
  have endures := endures_foldl (orderly_of_create created) actions
  obtain ⟨accepted, heeded⟩ := (heeded_of_create created).run actions
  have founded := founded_foldl created actions
  obtain ⟨_, own, handle, _, isAtlas⟩ := create_eq_ok_iff.mp created
  have alignment : w.atlas.alignment = max w.device.alignment 4 := by
    rw [isAtlas]
    rfl
  generalize actions.foldl step w = v at unused idle alone placed endures heeded founded ⊢
  obtain ⟨t, texture⟩ := Option.isSome_iff_exists.mp (founded id ((alone id).mpr rfl))
  have aligned : v.atlas.alignment ≤ 0x10000000000000000 := by
    have same : v.atlas.alignment = w.atlas.alignment := endures.fixes.alignment
    omega
  have size : v.staging.size = c.stagingBytes := endures.size.trans (size_of_stagingFor own)
  have waits : (v.step .flush).atlas.isPending id = true ↔ v.staging.size < p.width * p.height * 4 :=
    Frame.isPending_flush_of_alone heeded.toQueued idle texture alone unused aligned placed
  have outcome : Frame.Outcome id t (v.atlas.slot id) v.frame.flush := by
    have adopted : v.frame.adoptReady.atlas = v.atlas := congrArg Frame.atlas (Frame.adoptReady_of_idle idle)
    have queued : Queued accepted v.frame.adoptReady.atlas := heeded.toQueued.leads v.frame.leads_adoptReady
    rw [← adopted] at texture alone ⊢
    exact Frame.outcome_flush queued texture ((alone id).mpr rfl)
  rw [size] at waits
  cases outcome with
  | putOff slot _ isPending =>
    have slotOf : ((v.step .flush).atlas.slot id).status = (v.atlas.slot id).status := by
      show (v.frame.flush.atlas.slot id).status = (v.atlas.slot id).status
      rw [slot]
    have isWaiting : (v.step .flush).atlas.isPending id = true := isPending
    have full := waits.mp isWaiting
    refine ⟨iff_of_false (fun both => ?_) (Nat.not_le_of_lt full), fun _ => ⟨slotOf, isWaiting⟩⟩
    cases isWaiting.symm.trans both.2
  | uploaded slot isPending _ =>
    have isDone : (v.step .flush).atlas.isPending id = false := isPending
    have roomy : ¬c.stagingBytes < p.width * p.height * 4 := fun full => by cases isDone.symm.trans (waits.mpr full)
    exact ⟨iff_of_true ⟨congrArg Slot.status slot, isDone⟩ (Nat.not_lt.mp roomy), fun full => absurd full roomy⟩

/-- The atlas may as well have a staging buffer of its own. -/
theorem create_sample :
    Atlas.create { maxTextureId := 3, maxLayers := 1, padding := 1, stagingBytes := 168 } (.create 1) none =
      .ok (sample.atlas, sample.device, sample.staging) := by
  have created : Atlas.create { maxTextureId := 3, maxLayers := 1, padding := 1, stagingBytes := 168 } (.create 1)
      (some sample.staging) = .ok (sample.atlas, sample.device, sample.staging) :=
    create_of_unlimited rfl (by simp [Staging.size, sample, ByteArray.size, Config.tableBytes, entryBytes]) rfl
  obtain ⟨valid, _, handle, image, isAtlas⟩ := create_eq_ok_iff.mp created
  have zeros : Bytes.zeros 168 = ⟨Array.replicate 168 0⟩ := by
    rw [← Bytes.zeros_data]
  refine create_eq_ok_iff.mpr ⟨valid, ?_, handle, image, isAtlas⟩
  simp [stagingFor, Staging.create, zeros, sample, Staging.size, ByteArray.size, Config.tableBytes, entryBytes, bind,
    Except.bind, pure, Except.pure]

/-- A texture is set that with its padding takes less than the staging buffer has. -/
def fitting : List Action := [.register, .set 2 1 1 0 ⟨#[200, 100, 50, 255]⟩]

/-- A texture is set that takes less, and more with its padding. -/
def oversizing : List Action := [.register, .set 2 5 5 0 ⟨Array.replicate 100 255⟩]

theorem alone_of_waiting (waiting : v.atlas.pending.waiting = #[false, false, true]) (other : Nat) :
    v.atlas.isPending other = true ↔ other = 2 := by
  rw [isPending, Queue.contains, waiting]
  rcases other with _ | _ | _ | beyond
  all_goals simp

theorem waits_fitting : (fitting.foldl step sample).staging.used = 0 ∧
    (fitting.foldl step sample).atlas.repack.isNone ∧
    (fitting.foldl step sample).atlas.pending.waiting = #[false, false, true] ∧
    ((fitting.foldl step sample).step .flush).atlas.placement? 2 = some ⟨0, 0, 3, 3, 0⟩ := by
  decide +kernel

theorem uploads_iff_fits_fitting : (∃ c device, Atlas.create c device none =
      .ok (sample.atlas, sample.device, sample.staging) ∧ c.stagingBytes = 168) ∧
    (fitting.foldl step sample).staging.used = 0 ∧ (fitting.foldl step sample).atlas.repack = none ∧
    (∀ other, (fitting.foldl step sample).atlas.isPending other = true ↔ other = 2) ∧
    (((fitting.foldl step sample).step .flush).atlas.slot 2).status = .valid := by
  obtain ⟨unused, isIdle, waiting, placed⟩ := waits_fitting
  have idle := Option.isNone_iff_eq_none.mp isIdle
  have alone := alone_of_waiting waiting
  have uploads := uploads_iff_fits create_sample (by decide) fitting unused idle alone placed
  exact ⟨⟨_, _, create_sample, rfl⟩, unused, idle, alone, (uploads.1.mpr (by decide)).1⟩

/-- Data is taken that the staging buffer can never hold: the flush gives it a place and lets it wait, and so does the
next one, with all ranges of the buffer given back. -/
theorem not_valid_oversizing : (∃ c device, Atlas.create c device none =
      .ok (sample.atlas, sample.device, sample.staging) ∧ c.validate = .ok ()) ∧
    ((sample.step .register).atlas.set 2 5 5 0 ⟨Array.replicate 100 255⟩).2.toOption = some () ∧
    (oversizing.foldl step sample).staging.used = 0 ∧ (oversizing.foldl step sample).atlas.repack = none ∧
    (∀ other, (oversizing.foldl step sample).atlas.isPending other = true ↔ other = 2) ∧
    ((oversizing.foldl step sample).step .flush).atlas.placement? 2 = some ⟨0, 0, 7, 7, 0⟩ ∧
    (((oversizing.foldl step sample).step .flush).atlas.slot 2).status ≠ .valid ∧
    (((oversizing ++ [Action.flush, .submit, .finish, .flush]).foldl step sample).atlas.slot 2).status ≠ .valid := by
  have facts : (oversizing.foldl step sample).staging.used = 0 ∧
      (oversizing.foldl step sample).atlas.repack.isNone ∧
      (oversizing.foldl step sample).atlas.pending.waiting = #[false, false, true] := by decide +kernel
  refine ⟨⟨_, _, create_sample, rfl⟩, by decide +kernel, facts.1, Option.isNone_iff_eq_none.mp facts.2.1,
    alone_of_waiting facts.2.2, by decide +kernel, by decide +kernel, by decide +kernel⟩

end World

end TextureLoom.Atlas
