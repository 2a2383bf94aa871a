import TextureLoom.Proofs.Atlas.Filling
import TextureLoom.Proofs.Atlas.Submitting

set_option autoImplicit false

namespace TextureLoom.Atlas

variable {accepted changed : Nat → Option PixelBuffer} {a b : Atlas} {id : Nat} {t : Texture} {f : Frame} {w : World}

/-- Data of an id is uploaded to a place, or it waits for that. -/
def Heeds (a : Atlas) (id : Nat) : Prop :=
  (a.slot id).texture.isSome → (a.slot id).status = .valid ∧ (a.placement? id).isSome ∨
    (a.slot id).status = .pendingUpload ∧ a.isPending id = true

namespace Heeds

theorem of_eq (heeds : a.Heeds id) (slot : b.slot id = a.slot id) (waits : b.isPending id = a.isPending id) :
    b.Heeds id := by
  rwa [Heeds, placement?, slot, waits]

theorem concerns (heeds : a.Heeds id) (concerns : Concerns id a b) : b.Heeds id := by
  cases concerns with
  | others slot waits _ => exact heeds.of_eq slot waits
  | handedOut slot _ _ =>
    intro texture
    rw [slot] at texture
    cases texture
  | emptied none _ _ _ =>
    intro texture
    rw [none] at texture
    cases texture
  | loaded _ status waits _ => exact fun _ => Or.inr ⟨status, waits⟩

end Heeds

/-- Once the image of a repack is shown, data waits that has no place in the plan. -/
theorem waits_of_adopt (queued : Queued accepted a) {r : Repack} (texture : (a.slot id).texture = some t)
    (unplanned : r.places.get? id = none) :
    ((a.adopt r).slot id).status = .pendingUpload ∧ (a.adopt r).isPending id = true := by
  have registered := (queued.lt_of_texture texture).1
  refine ⟨?_, (queued.isPending_adopt r id).mpr (Or.inr ⟨by rw [texture]; rfl, unplanned⟩)⟩
  rw [(adopts_adopt queued.registry r).slotOf, settledSlot, if_pos registered, texture, unplanned]

/-- Data that has a place in the plan is valid there. -/
theorem slot_of_adopt (queued : Queued accepted a) {r : Repack} {p : Placement} (texture : (a.slot id).texture = some t)
    (planned : r.places.get? id = some p) : (a.adopt r).slot id = { a.slot id with place := some p }.uploaded := by
  rw [(adopts_adopt queued.registry r).slotOf]
  exact settledSlot_of_planned (queued.lt_of_texture texture).1 texture planned

/-- Only data that has a place in the plan is valid. -/
theorem planned_of_valid (queued : Queued accepted a) {r : Repack} (valid : ((a.adopt r).slot id).status = .valid) :
    ∃ t p, (a.slot id).texture = some t ∧ r.places.get? id = some p := by
  have adopts := adopts_adopt queued.registry r
  have slotSound : ((a.adopt r).slot id).Sound (accepted id) := adopts.registry.sound id
  have hasTexture := slotSound.texture_of_valid valid
  rw [adopts.slotOf, texture_settledSlot] at hasTexture
  obtain ⟨t, texture⟩ := Option.isSome_iff_exists.mp hasTexture
  rcases planned : r.places.get? id with _ | p
  · cases (waits_of_adopt queued texture planned).1.symm.trans valid
  · exact ⟨t, p, texture, rfl⟩

theorem heeds_adopt (queued : Queued accepted a) (r : Repack) (id : Nat) : (a.adopt r).Heeds id := by
  intro hasTexture
  rw [(adopts_adopt queued.registry r).slotOf, texture_settledSlot] at hasTexture
  obtain ⟨t, texture⟩ := Option.isSome_iff_exists.mp hasTexture
  rcases planned : r.places.get? id with _ | p
  · exact Or.inr (waits_of_adopt queued texture planned)
  · have slot := slot_of_adopt queued texture planned
    refine Or.inl ⟨?_, ?_⟩
    · rw [slot]
      rfl
    · rw [placement?, slot]
      rfl

/-- What waits is still heeded, whatever becomes of it. -/
theorem Frame.Outcome.heeds (outcome : f.Outcome id t (a.slot id)) (heeds : a.Heeds id) : f.atlas.Heeds id := by
  cases outcome with
  | putOff slot kept waits =>
    intro hasTexture
    rw [slot] at hasTexture
    rw [placement?, slot]
    exact (heeds hasTexture).imp (fun both => ⟨both.1, (kept both.2).1⟩) fun both => ⟨both.1, waits⟩
  | uploaded slot _ _ =>
    intro _
    rw [placement?, slot]
    exact Or.inl ⟨rfl, rfl⟩

/-- The queues are in order, all data that is not uploaded waits in one, and what is queued for a repack has a place
planned. -/
structure Heeded (accepted : Nat → Option PixelBuffer) (a : Atlas) : Prop extends Queued accepted a where
  heeds : ∀ id, a.Heeds id
  planned : ∀ id place, a.planAt id = some (place, true) → place.isSome

namespace Heeded

theorem call (heeded : Heeded accepted a) (call : Call a b) (queued : Queued changed b) : Heeded changed b where
  toQueued := queued
  heeds := fun id => (heeded.heeds id).concerns (call.concerns heeded.toQueued id)
  planned := by
    intro id place isPlan
    cases call.concerns heeded.toQueued id with
    | others _ _ same => exact heeded.planned id place (same ▸ isPlan)
    | handedOut _ _ same => exact heeded.planned id place (same ▸ isPlan)
    | emptied _ _ _ unqueued =>
      rw [unqueued] at isPlan
      obtain ⟨_, _, isPair⟩ := Option.map_eq_some_iff.mp isPlan
      cases isPair
    | loaded _ _ _ joins =>
      rcases joins place true isPlan with planned | ⟨_, same⟩
      · exact planned.symm
      · exact heeded.planned id place same

/-- What is queued for a repack that runs once a flush has started what was asked for. -/
theorem planned_startRequested (heeded : Heeded accepted f.atlas) {r : Repack}
    (running : f.adoptReady.startRequested.atlas.repack = some r) (waits : r.queue.contains id = true) :
    (r.places.get? id).isSome := by
  rcases Frame.running_cases heeded.toQueued running with ⟨before, _, _⟩ | ⟨_, _, planned⟩
  · apply heeded.planned id
    rw [planAt_of_running before, waits]
  · exact planned id waits

theorem flush (heeded : Heeded accepted f.atlas) : Heeded accepted f.flush.atlas where
  toQueued := heeded.toQueued.leads f.leads_flush
  heeds := by
    intro id hasTexture
    have adopted : Queued accepted f.adoptReady.atlas := heeded.toQueued.leads f.leads_adoptReady
    have heeds : f.adoptReady.atlas.Heeds id := by
      rcases f.adoptReady_cases with ⟨r, _, _, isAtlas⟩ | ⟨_, isAtlas⟩
      · rw [isAtlas]
        exact heeds_adopt heeded.toQueued r id
      · rw [isAtlas]
        exact heeded.heeds id
    rcases waits : f.adoptReady.atlas.isPending id with _ | _
    · obtain ⟨slot, idle⟩ := Frame.flush_of_idle adopted waits
      exact heeds.of_eq slot (idle.trans waits.symm) hasTexture
    · have same : (f.flush.atlas.slot id).texture = (f.adoptReady.atlas.slot id).texture :=
        (f.leads_flush.sameData heeded.toQueued id).texture.trans
          (f.leads_adoptReady.sameData heeded.toQueued id).texture.symm
      obtain ⟨t, texture⟩ := Option.isSome_iff_exists.mp hasTexture
      exact (Frame.outcome_flush adopted (same.symm.trans texture) waits).heeds heeds hasTexture
  planned := by
    intro id place isPlan
    obtain ⟨s, isLast, isPair⟩ := Option.map_eq_some_iff.mp isPlan
    obtain ⟨rfl, waits⟩ := Prod.mk.inj isPair
    have adopted : Queued accepted f.adoptReady.atlas := heeded.toQueued.leads f.leads_adoptReady
    obtain ⟨idle, goesOn⟩ := Frame.planned_flush adopted
    rcases running : f.adoptReady.startRequested.atlas.repack with _ | r
    · cases (idle running).symm.trans isLast
    · obtain ⟨u, isRepack, continues, each⟩ := goesOn r running
      cases isLast.symm.trans isRepack
      rw [continues.places]
      exact heeded.planned_startRequested running ((each id).1 waits)

/-- What one action keeps. -/
theorem step (heeded : Heeded accepted w.atlas) (action : Action) :
    ∃ changed, Heeded changed (w.step action).atlas := by
  by_cases flushes : action = .flush
  · subst flushes
    exact ⟨accepted, flush (f := w.frame) heeded⟩
  · obtain ⟨changed, queued⟩ := heeded.toQueued.step action
    exact ⟨changed, heeded.call (World.call_of_step heeded.orderly flushes) queued⟩

/-- What any actions keep, in whatever order. -/
theorem run (heeded : Heeded accepted w.atlas) (actions : List Action) :
    ∃ changed, Heeded changed (actions.foldl World.step w).atlas := by
  induction actions generalizing w accepted with
  | nil => exact ⟨accepted, heeded⟩
  | cons action rest ih =>
    obtain ⟨_, stepped⟩ := heeded.step action
    exact ih stepped

end Heeded

theorem heeded_of_create {c : Config} {device live : Device} {given : Option Staging} {staging : Staging}
    (created : Atlas.create c device given = .ok (a, live, staging)) : Heeded (fun _ => none) a where
  toQueued := queued_of_create created
  heeds := by
    obtain ⟨_, _, handle, _, rfl⟩ := create_eq_ok_iff.mp created
    intro id hasTexture
    rw [slot_ofImage] at hasTexture
    cases hasTexture
  planned := by
    obtain ⟨_, _, handle, _, rfl⟩ := create_eq_ok_iff.mp created
    intro id place isPlan
    cases isPlan

namespace World

/-- An atlas loses sight of no data. -/
structure Attentive (w : World) : Prop where
  /-- Data is uploaded to a place, or it waits. -/
  heeds : ∀ id, w.atlas.Heeds id
  /-- A flush uploads what waits, and what has no place in a repack that it shows, or lets it wait on. -/
  flush : ∀ id t, (w.atlas.slot id).texture = some t →
    w.atlas.isPending id = true ∨
      (∃ r, w.atlas.repack = some r ∧ r.progress = .ready ∧ r.places.get? id = none) →
    ((w.step .flush).atlas.slot id).texture = some t ∧
      ((w.step .flush).atlas.isPending id = true ∨
        ((w.step .flush).atlas.slot id).status = .valid ∧
          ∃ p, (w.step .flush).atlas.placement? id = some p ∧
            (w.atlas.flush w.device w.staging).Records (w.step .flush).atlas.image.handle t p)
  /-- Data that has no place in a repack waits, should the repack be shown. -/
  adopt : ∀ r, w.atlas.repack = some r → ∀ id, (w.atlas.slot id).texture.isSome → r.places.get? id = none →
    ((w.atlas.adopt r).slot id).status = .pendingUpload ∧ (w.atlas.adopt r).isPending id = true
  /-- What is queued for a repack has a place planned, and the flush uploads it there or queues it again. -/
  repack : ∀ r, w.frame.adoptReady.startRequested.atlas.repack = some r →
    ∃ s, (w.step .flush).atlas.repack = some s ∧ r.Continues s ∧
      ∀ id t, r.queue.contains id = true → (w.atlas.slot id).texture = some t →
        ∃ p, r.places.get? id = some p ∧ (s.queue.contains id = true ∨
          (w.atlas.flush w.device w.staging).Records r.image.handle t p)

/-- Whatever is called, in whatever order, no data is lost sight of. -/
theorem attentive_of_create {c : Config} {device : Device} {given : Option Staging}
    (created : Atlas.create c device given = .ok (w.atlas, w.device, w.staging)) (actions : List Action) :
    (actions.foldl step w).Attentive := by
  obtain ⟨accepted, heeded⟩ := (heeded_of_create created).run actions
  generalize actions.foldl step w = v at heeded
  have adopted : Queued accepted v.frame.adoptReady.atlas := heeded.toQueued.leads v.frame.leads_adoptReady
  have sameData := fun id => v.frame.leads_adoptReady.sameData heeded.toQueued id
  refine ⟨heeded.heeds, fun id t texture waits => ⟨?_, ?_⟩, fun r _ id hasTexture unplanned => ?_,
    fun r running => ?_⟩
  · exact (v.frame.leads_flush.sameData heeded.toQueued id).texture.trans texture
  · have textureAt : (v.frame.adoptReady.atlas.slot id).texture = some t := (sameData id).texture.trans texture
    have isPending : v.frame.adoptReady.atlas.isPending id = true := by
      rcases v.frame.adoptReady_cases with ⟨r, running, ready, isAtlas⟩ | ⟨unready, isAtlas⟩
      · rw [isAtlas]
        refine (heeded.toQueued.isPending_adopt r id).mpr (waits.imp (fun isPending => isPending) ?_)
        rintro ⟨o, isOther, _, unplanned⟩
        cases running.symm.trans isOther
        exact ⟨Option.isSome_iff_exists.mpr ⟨t, texture⟩, unplanned⟩
      · rw [isAtlas]
        refine waits.resolve_right ?_
        rintro ⟨o, running, ready, _⟩
        exact unready o running ready
    cases Frame.outcome_flush adopted textureAt isPending with
    | putOff _ _ stays => exact Or.inl stays
    | uploaded slot _ records =>
      exact Or.inr ⟨congrArg Slot.status slot, _, congrArg Slot.place slot, records⟩
  · obtain ⟨t, texture⟩ := Option.isSome_iff_exists.mp hasTexture
    exact waits_of_adopt heeded.toQueued texture unplanned
  · obtain ⟨s, isLast, continues, each⟩ := (Frame.planned_flush adopted).2 r running
    refine ⟨s, isLast, continues, fun id t waits texture => ?_⟩
    obtain ⟨p, isPlace⟩ := Option.isSome_iff_exists.mp (heeded.planned_startRequested running waits)
    exact ⟨p, isPlace, (each id).2 t p waits ((sameData id).texture.trans texture) isPlace⟩

theorem attentive_drawn : ∃ c device given,
    Atlas.create c device given = .ok (sample.atlas, sample.device, sample.staging) ∧ drawn.Attentive ∧
      (drawn.atlas.slot 2).texture.isSome := by
  obtain ⟨c, device, given, _, created, _⟩ := starts_sample
  exact ⟨c, device, given, created, attentive_of_create created drawing, by decide +kernel⟩

end World

end TextureLoom.Atlas
