import TextureLoom.Proofs.Atlas.Calling
import TextureLoom.Proofs.Atlas.Tiling

set_option autoImplicit false

namespace TextureLoom.Atlas

open Bytes

variable {accepted changed : Nat → Option PixelBuffer} {a b c : Atlas} {id other count : Nat} {t : Texture}

namespace Queue

variable {q : Queue}

theorem contains_push_of_ne (q : Queue) (distinct : other ≠ id) : (q.push id).contains other = q.contains other := by
  rw [Bool.eq_iff_iff, contains_push]
  exact or_iff_left fun both => distinct both.1

theorem Sound.contains_push_self (sound : q.Sound count) (bound : id < count) : (q.push id).contains id = true :=
  contains_push.mpr (Or.inr ⟨rfl, sound.size ▸ bound⟩)

/-- Of ids that are put in line, only those wait. -/
theorem contains_pushAll {ids : List Nat} (waits : (ids.foldl push q).contains id = true) :
    id ∈ ids ∨ q.contains id = true := by
  induction ids generalizing q with
  | nil => exact Or.inr waits
  | cons first rest ih =>
    rcases ih waits with inRest | earlier
    · exact Or.inl (List.mem_cons_of_mem first inRest)
    · exact (contains_push.mp earlier).elim Or.inr fun both => Or.inl (both.1 ▸ List.mem_cons_self)

end Queue

section

variable {α : Type} (Same : α → α → Prop) {step : α → Nat → α} {ids : List Nat}

/-- Steps for other ids leave what an id has as it is. -/
theorem foldl_others (refl : ∀ x, Same x x) (trans : ∀ x y z, Same x y → Same y z → Same x z)
    (others : ∀ x i, i ≠ id → Same x (step x i)) (outside : id ∉ ids) (start : α) :
    Same start (ids.foldl step start) := by
  induction ids generalizing start with
  | nil => exact refl start
  | cons first rest ih =>
    rw [List.mem_cons, not_or] at outside
    exact trans _ _ _ (others start first (Ne.symm outside.1)) (ih outside.2 (step start first))

/-- Where each id has one step, that of an id starts from what it had and leaves what it has then. -/
theorem foldl_at (refl : ∀ x, Same x x) (trans : ∀ x y z, Same x y → Same y z → Same x z)
    (others : ∀ x i, i ≠ id → Same x (step x i)) (distinct : ids.Nodup) (member : id ∈ ids) (start : α) :
    ∃ x, Same start x ∧ Same (step x id) (ids.foldl step start) := by
  obtain ⟨before, behind, rfl⟩ := List.append_of_mem member
  rw [List.nodup_append, List.nodup_cons] at distinct
  have earlier : id ∉ before := fun isBefore => distinct.2.2 id isBefore id List.mem_cons_self rfl
  rw [List.foldl_append, List.foldl_cons]
  exact ⟨_, foldl_others Same refl trans others earlier start,
    foldl_others Same refl trans others distinct.2.1.1 _⟩

end

theorem queues_showPlace (a : Atlas) (id : Nat) :
    (a.showPlace id).pending = a.pending ∧ (a.showPlace id).repack = a.repack := by
  unfold showPlace
  split <;> exact ⟨rfl, rfl⟩

/-- Showing the image of a repack puts in line what has data and no place there. -/
theorem pending_settle (places : Table Nat Placement) (a : Atlas) (id : Nat) : (settle places a id).pending =
    if (a.slot id).isRegistered = true ∧ (a.slot id).texture.isSome ∧ places.get? id = none then a.pending.push id
    else a.pending := by
  simp only [settle]
  by_cases registered : (a.slot id).isRegistered = true
  · rw [if_pos registered]
    rcases texture : (a.slot id).texture with _ | t
    · rw [if_neg (by simp)]
      rfl
    · rcases planned : places.get? id with _ | p
      · rw [if_pos ⟨registered, rfl, rfl⟩]
        rfl
      · rw [if_neg (by simp)]
        exact (queues_showPlace _ id).1
  · rw [if_neg registered, if_neg fun all => registered all.1]

/-- Data that is set waits to be uploaded, into the image of a running repack too if that has a place planned and does
not give it up for its size. -/
theorem queues_load (a : Atlas) (id : Nat) (t : Texture) : (a.load id t).pending = a.pending.push id ∧
    ((a.load id t).repack = a.repack.map (fun r =>
        if (r.places.get? id).isSome then { r with queue := r.queue.push id } else r) ∨
      (a.load id t).repack = a.repack.map fun r =>
        { r with places := r.places.erase id, queue := r.queue.remove id }) := by
  have marks : ∀ b : Atlas, (if (b.placement? id).isNone then b.setEntry id .pending else b).pending = b.pending ∧
      (if (b.placement? id).isNone then b.setEntry id .pending else b).repack = b.repack := by
    intro b
    split <;> exact ⟨rfl, rfl⟩
  obtain ⟨pending, repack⟩ := marks ((a.releaseResized id t.width t.height).modifySlot id (·.loaded t))
  simp only [load, joinRepack, pending, repack]
  rcases releaseResized_cases a id t.width t.height with ⟨kept, _⟩ | released
  · rw [kept]
    exact ⟨rfl, Or.inl rfl⟩
  · rw [released]
    refine ⟨rfl, Or.inr ?_⟩
    simp only [modifySlot, unplan, setEntry, releasePlace, Option.map_map]
    congr 1
    funext r
    simp only [Function.comp_apply, Table.get?_erase_self, Option.isSome_none, Bool.false_eq_true, ↓reduceIte]

theorem Plan.begin_queue (plan : Plan) (handle count : Nat) (items : List Item) :
    (plan.begin handle count items).queue = (items.map (·.id)).foldl Queue.push (Queue.create count) := by
  rw [List.foldl_map]
  rfl

/-- The atlas is in order, and so are its queues. -/
structure Queued (accepted : Nat → Option PixelBuffer) (a : Atlas) : Prop extends Arranged accepted a where
  positive : 0 < a.alignment
  pending : a.pending.Sound a.config.maxTextureId
  queue : ∀ r, a.repack = some r → r.queue.Sound a.config.maxTextureId

namespace Queued

theorem orderly (queued : Queued accepted a) : a.Orderly := ⟨queued.positive, accepted, queued.registry⟩

/-- An id with data is one of those that the queues know. -/
theorem lt_of_texture (queued : Queued accepted a) (texture : (a.slot id).texture = some t) :
    (a.slot id).isRegistered = true ∧ id < a.config.maxTextureId := by
  have slotSound : (a.slot id).Sound (accepted id) := queued.registry.sound id
  have registered := slotSound.registered (by rw [texture]; rfl)
  exact ⟨registered, queued.registry.slots_size ▸ lt_of_isRegistered registered⟩

/-- What waits once the image of a repack is shown. -/
theorem isPending_adopt (queued : Queued accepted a) (r : Repack) (id : Nat) : (a.adopt r).isPending id = true ↔
    a.isPending id = true ∨ (a.slot id).texture.isSome ∧ r.places.get? id = none := by
  let shown : Atlas := { a with image := r.image, retired := a.retired ++ [a.image.handle], repack := none }
  let same : Atlas → Atlas → Prop := fun x y => y.slot id = x.slot id ∧ y.isPending id = x.isPending id ∧
    (x.pending.Sound a.config.maxTextureId → y.pending.Sound a.config.maxTextureId)
  have refl : ∀ x, same x x := fun _ => ⟨rfl, rfl, fun sound => sound⟩
  have trans : ∀ x y z, same x y → same y z → same x z := fun _ _ _ first second =>
    ⟨second.1.trans first.1, second.2.1.trans first.2.1, fun sound => second.2.2 (first.2.2 sound)⟩
  have others : ∀ x i, i ≠ id → same x (settle r.places x i) := by
    intro x i distinct
    refine ⟨(edits_settle r.places x i).slotOf id distinct.symm, ?_, ?_⟩
    · rw [isPending, isPending, pending_settle]
      split
      · exact Queue.contains_push_of_ne _ distinct.symm
      · rfl
    · rw [pending_settle]
      split
      · exact fun sound => sound.push i
      · exact fun sound => sound
  show ((List.range a.slots.size).foldl (settle r.places) shown).isPending id = true ↔ _
  by_cases bound : id < a.slots.size
  · obtain ⟨x, ⟨slot, waits, sound⟩, _, after, _⟩ :=
      foldl_at same refl trans others List.nodup_range (List.mem_range.mpr bound) shown
    have slotOf : x.slot id = a.slot id := slot
    have isPendingOf : x.isPending id = a.isPending id := waits
    rw [after, isPending, pending_settle, slotOf, ← isPendingOf]
    rcases texture : (a.slot id).texture with _ | t
    · rw [if_neg (by simp)]
      simp [isPending]
    · have registered := (queued.lt_of_texture texture).1
      by_cases unplanned : r.places.get? id = none
      · rw [if_pos ⟨registered, rfl, unplanned⟩, Queue.contains_push]
        have size := (sound queued.pending).size
        simp [isPending, unplanned, size, ← queued.registry.slots_size, bound]
      · rw [if_neg fun all => unplanned all.2.2]
        simp [isPending, unplanned]
  · have outside : id ∉ List.range a.slots.size := fun member => bound (List.mem_range.mp member)
    obtain ⟨_, after, _⟩ := foldl_others same refl trans others outside shown
    have none : (a.slot id).texture = none := by rw [slot_of_le (Nat.not_lt.mp bound)]
    rw [after, none]
    simp [shown, isPending]

theorem pending_adopt (queued : Queued accepted a) (r : Repack) :
    (a.adopt r).pending.Sound (a.adopt r).config.maxTextureId := by
  rw [(fixes_adopt a r).config]
  let shown : Atlas := { a with image := r.image, retired := a.retired ++ [a.image.handle], repack := none }
  refine List.foldlRecOn (motive := fun b : Atlas => b.pending.Sound a.config.maxTextureId) (List.range a.slots.size)
    (settle r.places) (b := shown) queued.pending fun b before id _ => ?_
  rw [pending_settle]
  split
  · exact before.push id
  · exact before

/-- A change of the queue of a running repack. -/
theorem map (queued : Queued accepted a) {f : Repack → Repack} (keeps : ∀ r : Repack,
    r.queue.Sound a.config.maxTextureId → (f r).queue.Sound a.config.maxTextureId) :
    ∀ r, a.repack.map f = some r → r.queue.Sound a.config.maxTextureId := by
  intro r running
  obtain ⟨old, isOld, rfl⟩ := Option.map_eq_some_iff.mp running
  exact keeps old (queued.queue old isOld)

/-- What one step of recording a flush keeps. -/
theorem flushStep (queued : Queued accepted a) (step : FlushStep a b) : Queued accepted b := by
  have arranged := queued.toArranged.flushStep step
  have fixes := step.fixes
  have positive : 0 < b.alignment := fixes.alignment ▸ queued.positive
  cases step with
  | @adopt r running ready =>
    refine ⟨arranged, positive, queued.pending_adopt r, fun other isOther => ?_⟩
    cases (adopts_adopt queued.registry r).repack.symm.trans isOther
  | start handle _ _ isTried planned =>
    refine ⟨arranged, positive, queued.pending, fun r isRepack => ?_⟩
    cases isRepack
    rw [Plan.begin_queue]
    exact ((Queue.sound_create _).pushAll _).1
  | enlarge handle grows =>
    rw [enlarged_eq] at arranged positive ⊢
    exact ⟨arranged, positive, queued.pending, queued.queue⟩
  | take => exact ⟨arranged, positive, queued.pending.drain, queued.map fun r sound => sound.drain⟩
  | place texture unplaced found =>
    obtain ⟨_, _, rfl⟩ := Option.map_eq_some_iff.mp found
    exact ⟨arranged, positive, queued.pending, queued.queue⟩
  | requeue id => exact ⟨arranged, positive, queued.pending.push id, queued.queue⟩
  | requeuePlanned id => exact ⟨arranged, positive, queued.pending, queued.map fun r sound => sound.push id⟩
  | turnRepack layout => exact ⟨arranged, positive, queued.pending, queued.map fun r sound => sound⟩
  | @reveal id t p texture placed =>
    obtain ⟨pending, repack⟩ := queues_showPlace (a.modifySlot id Slot.uploaded) id
    refine ⟨arranged, positive, ?_, ?_⟩
    · rw [pending, fixes.config]
      exact queued.pending
    · rw [repack, fixes.config]
      exact queued.queue
  | await =>
    refine ⟨arranged, positive, queued.pending, queued.map fun r sound => ?_⟩
    split <;> exact sound
  | dropRequest _ | meetRequest | turn _ | refresh => exact ⟨arranged, positive, queued.pending, queued.queue⟩

theorem leads {f g : Frame} (queued : Queued accepted f.atlas) (leads : f.Leads g) : Queued accepted g.atlas := by
  rw [Frame.Leads] at leads
  generalize g.atlas = b at leads
  induction leads with
  | refl => exact queued
  | tail _ step before => exact before.flushStep step

/-- Queues in order, and a call that keeps them so. -/
theorem call (queued : Queued accepted a) (call : Call a b) (arranged : Arranged changed b) : Queued changed b := by
  have positive : 0 < b.alignment := call.fixes.alignment ▸ queued.positive
  cases call with
  | empty freeIds registered empties =>
    exact ⟨arranged, positive, queued.pending.remove _, queued.map fun r sound => sound.remove _⟩
  | @load id t registered =>
    obtain ⟨pending, queues⟩ := queues_load a id t
    have config := (loads_load registered t).edits.config
    refine ⟨arranged, positive, ?_, ?_⟩
    · rw [pending, config]
      exact queued.pending.push id
    · rw [config]
      rcases queues with joined | unplanned
      · rw [joined]
        refine queued.map fun r sound => ?_
        split
        · exact sound.push id
        · exact sound
      · rw [unplanned]
        exact queued.map fun r sound => sound.remove id
  | finish =>
    refine ⟨arranged, positive, queued.pending, queued.map fun r sound => ?_⟩
    split <;> exact sound
  | none | handOut _ | request _ _ => exact ⟨arranged, positive, queued.pending, queued.queue⟩

/-- What one action keeps. -/
theorem step {w : World} (queued : Queued accepted w.atlas) (action : Action) :
    ∃ changed, Queued changed (w.step action).atlas := by
  by_cases flushes : action = .flush
  · subst flushes
    exact ⟨accepted, queued.leads w.frame.leads_flush⟩
  · obtain ⟨changed, arranged⟩ := queued.toArranged.step action
    exact ⟨changed, queued.call (World.call_of_step queued.orderly flushes) arranged⟩

end Queued

/-- What a running repack has planned for an id, and whether the id is queued for it. -/
def planAt (a : Atlas) (id : Nat) : Option (Option Placement × Bool) :=
  a.repack.map fun r => (r.places.get? id, r.queue.contains id)

theorem planAt_of_running {r : Repack} (running : a.repack = some r) (id : Nat) :
    a.planAt id = some (r.places.get? id, r.queue.contains id) := by
  rw [planAt, running, Option.map_some]

/-- Of other ids, a running repack keeps what it has planned and queued. -/
theorem planAt_map {f : Repack → Repack} (isMap : b.repack = a.repack.map f) (kept : ∀ r : Repack,
    (f r).places.get? other = r.places.get? other ∧ (f r).queue.contains other = r.queue.contains other) :
    b.planAt other = a.planAt other := by
  simp only [planAt, isMap, Option.map_map, Function.comp_def, kept]

theorem planAt_emptied_of_ne (a : Atlas) (f : Slot → Slot) (e : Entry) (freeIds : List Nat) (distinct : other ≠ id) :
    planAt { a.emptied id f e with freeIds } other = a.planAt other := by
  apply planAt_map (f := fun r => { r with queue := r.queue.remove id })
  · simp only [Atlas.emptied, dequeue, leaveRepack, setEntry, modifySlot, releasePlace]
  · exact fun r => ⟨rfl, Queue.contains_remove_of_ne r.queue distinct⟩

theorem planAt_load_of_ne (a : Atlas) (t : Texture) (distinct : other ≠ id) :
    (a.load id t).planAt other = a.planAt other := by
  rcases (queues_load a id t).2 with joined | unplanned
  · apply planAt_map joined
    intro r
    split
    · exact ⟨rfl, Queue.contains_push_of_ne r.queue distinct⟩
    · exact ⟨rfl, rfl⟩
  · apply planAt_map unplanned
    intro r
    exact ⟨Table.get?_erase_of_ne r.places distinct, Queue.contains_remove_of_ne r.queue distinct⟩

/-- What a call does to an id. -/
inductive Concerns (id : Nat) (a b : Atlas) : Prop where
  /-- The call is about other ids, or about none. -/
  | others : b.slot id = a.slot id → b.isPending id = a.isPending id → b.planAt id = a.planAt id → Concerns id a b
  /-- The id had no data. -/
  | handedOut : b.slot id = .fresh → b.isPending id = a.isPending id → b.planAt id = a.planAt id →
      (a.slot id).texture = none → Concerns id a b
  | emptied : (b.slot id).texture = none → (b.slot id).status ≠ .valid → b.isPending id = false →
      b.planAt id = (a.planAt id).map (fun plan => (plan.1, false)) → Concerns id a b
  /-- It is queued for a running repack that has a place planned. -/
  | loaded {t : Texture} : (b.slot id).texture = some t → (b.slot id).status = .pendingUpload →
      b.isPending id = true → (∀ place waits, b.planAt id = some (place, waits) →
        waits = place.isSome ∨ place = none ∧ a.planAt id = some (place, waits)) →
      sizeError? a.config id t.width t.height = none → Concerns id a b

theorem concerns_emptied {f : Slot → Slot} {e : Entry} (freeIds : List Nat)
    (empties : Empties id (f (a.slot id).unplaced) a (a.emptied id f e)) (other : Nat) :
    Concerns other a { a.emptied id f e with freeIds } := by
  by_cases same : other = id
  · subst same
    have slot : (a.emptied other f e).slot other = f (a.slot other).unplaced := empties.slot
    refine .emptied ?_ ?_ (Queue.contains_remove_self a.pending other) ?_
    · exact (congrArg Slot.texture slot).trans empties.texture
    · exact fun valid => empties.invalid ((congrArg Slot.status slot).symm.trans valid)
    · simp only [planAt, Atlas.emptied, dequeue, leaveRepack, setEntry, modifySlot, releasePlace, Option.map_map,
        Function.comp_def, Queue.contains_remove_self]
  · exact .others (empties.edits.slotOf other same) (Queue.contains_remove_of_ne a.pending same)
      (planAt_emptied_of_ne a f e freeIds same)

theorem concerns_load (queued : Queued accepted a) (registered : (a.slot id).isRegistered = true)
    (small : sizeError? a.config id t.width t.height = none) (other : Nat) : Concerns other a (a.load id t) := by
  have loads := loads_load registered t
  obtain ⟨pending, queues⟩ := queues_load a id t
  have bound : id < a.config.maxTextureId := queued.registry.slots_size ▸ lt_of_isRegistered registered
  by_cases same : other = id
  · subst same
    refine .loaded loads.texture loads.pending ?_ (fun place waits isPlan => ?_) small
    · rw [isPending, pending]
      exact queued.pending.contains_push_self bound
    · obtain ⟨r, isRepack, isPair⟩ := Option.map_eq_some_iff.mp isPlan
      cases isPair
      rcases queues with joined | unplanned
      · rw [joined] at isRepack
        obtain ⟨o, running, rfl⟩ := Option.map_eq_some_iff.mp isRepack
        split
        · rename_i planned
          rw [planned]
          exact Or.inl ((queued.queue o running).contains_push_self bound)
        · rename_i unplanned
          rw [Bool.not_eq_true, Option.isSome_eq_false_iff, Option.isNone_iff_eq_none] at unplanned
          exact Or.inr ⟨unplanned, planAt_of_running running other⟩
      · rw [unplanned] at isRepack
        obtain ⟨o, running, rfl⟩ := Option.map_eq_some_iff.mp isRepack
        rw [Queue.contains_remove_self, Table.get?_erase_self]
        exact Or.inl rfl
  · refine .others (loads.edits.slotOf other same) ?_ ?_
    · rw [isPending, pending]
      exact Queue.contains_push_of_ne _ same
    · exact planAt_load_of_ne a t same

/-- What any call does to any id. -/
theorem Call.concerns (call : Call a b) (queued : Queued accepted a) (id : Nat) : Concerns id a b := by
  cases call with
  | @handOut handed later left handsOut =>
    by_cases same : id = handed
    · subst same
      refine .handedOut handsOut.slot rfl rfl (Option.not_isSome_iff_eq_none.mp fun hasTexture => ?_)
      obtain ⟨t, texture⟩ := Option.isSome_iff_exists.mp hasTexture
      cases handsOut.unregistered.symm.trans (queued.lt_of_texture texture).1
    · exact .others (handsOut.edits.slotOf id same) rfl rfl
  | empty freeIds registered empties => exact concerns_emptied freeIds empties id
  | load t registered small => exact concerns_load queued registered small id
  | finish =>
    refine .others rfl rfl ?_
    simp only [planAt, Option.map_map, Function.comp_def]
    congr 1
    funext r
    split <;> rfl
  | none => exact .others rfl rfl rfl
  | request layerRequest repackRequest => exact .others rfl rfl rfl

/-- No call touches the image of a running repack, and one that becomes ready has nothing queued. -/
theorem Call.repack {r : Repack} (call : Call a b) (running : b.repack = some r) : ∃ o, a.repack = some o ∧
    r.image = o.image ∧ (r.progress = o.progress ∨ r.queue.isEmpty = true) := by
  cases call with
  | empty freeIds registered empties =>
    obtain ⟨o, isOld, rfl⟩ := Option.map_eq_some_iff.mp running
    exact ⟨o, isOld, rfl, Or.inl rfl⟩
  | @load id t registered =>
    rcases (queues_load a id t).2 with joined | unplanned
    · rw [joined] at running
      obtain ⟨o, isOld, rfl⟩ := Option.map_eq_some_iff.mp running
      refine ⟨o, isOld, ?_⟩
      split <;> exact ⟨rfl, Or.inl rfl⟩
    · rw [unplanned] at running
      obtain ⟨o, isOld, rfl⟩ := Option.map_eq_some_iff.mp running
      exact ⟨o, isOld, rfl, Or.inl rfl⟩
  | finish =>
    obtain ⟨o, isOld, rfl⟩ := Option.map_eq_some_iff.mp running
    refine ⟨o, isOld, ?_⟩
    split
    · rename_i both
      exact ⟨rfl, Or.inr both.2⟩
    · exact ⟨rfl, Or.inl rfl⟩
  | none => exact ⟨r, running, rfl, Or.inl rfl⟩
  | handOut _ => exact ⟨r, running, rfl, Or.inl rfl⟩
  | request _ _ => exact ⟨r, running, rfl, Or.inl rfl⟩

theorem queued_of_create {c : Config} {device live : Device} {given : Option Staging} {staging : Staging}
    (created : Atlas.create c device given = .ok (a, live, staging)) : Queued (fun _ => none) a := by
  have arranged := arranged_of_create created
  have orderly := orderly_of_create created
  obtain ⟨_, _, handle, _, rfl⟩ := create_eq_ok_iff.mp created
  exact ⟨arranged, orderly.positive, Queue.sound_create _, fun _ running => by cases running⟩

end TextureLoom.Atlas
