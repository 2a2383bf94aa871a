import TextureLoom.Proofs.Atlas.Recording
import TextureLoom.Proofs.Atlas.Resizing

set_option autoImplicit false

namespace TextureLoom.Atlas

variable {accepted changed : Nat → Option PixelBuffer} {a b : Atlas} {id : Nat} {w : World}

/-- A repack has planned places that lie apart in its image. -/
structure Repack.Arranged (r : Repack) : Prop where
  places : PlacesSound r.places.get? r.image.capacity
  side : r.image.capacity.side ∈ allowedSides

/-- The places of an atlas lie apart in its image, its bins have just the rest of it, and a running repack has planned
places to come. -/
structure Arranged (accepted : Nat → Option PixelBuffer) (a : Atlas) : Prop where
  registry : Registry accepted a.config.maxTextureId a.slots a.entries a.freeIds a.nextId
  packed : Packed a.placement? a.bins a.image.capacity
  side : a.image.capacity.side ∈ allowedSides
  repack : ∀ r, a.repack = some r → r.Arranged

namespace Arranged

/-- A change of one id that leaves the bins in order. -/
theorem edit (arranged : Arranged accepted a) (edits : Edits id a b)
    (registry : Registry changed b.config.maxTextureId b.slots b.entries b.freeIds b.nextId)
    (packed : Packed b.placement? b.bins a.image.capacity) : Arranged changed b where
  registry := registry
  packed := edits.image ▸ packed
  side := edits.image ▸ arranged.side
  repack := by
    intro r running
    obtain ⟨old, isOld, follows⟩ := edits.repack r running
    have before := arranged.repack old isOld
    refine ⟨?_, follows.image ▸ before.side⟩
    rw [follows.image]
    exact before.places.mono (Capacity.Le.refl _) follows.fewer

/-- Of a running repack, neither the places nor the size of the image differ. -/
theorem mapRepack (arranged : Arranged accepted a) (change : Repack → Repack)
    (places : ∀ r, (change r).places = r.places) (capacity : ∀ r, (change r).image.capacity = r.image.capacity) :
    Arranged accepted { a with repack := a.repack.map change } :=
  { arranged with
    repack := by
      intro r running
      obtain ⟨old, isOld, rfl⟩ := Option.map_eq_some_iff.mp running
      have before := arranged.repack old isOld
      refine ⟨?_, (capacity old).symm ▸ before.side⟩
      rw [places, capacity]
      exact before.places }

/-- The planned places are those of the ids once the image of the repack is shown. -/
theorem adopt {r : Repack} (arranged : Arranged accepted a) (running : a.repack = some r) :
    Arranged accepted (a.adopt r) := by
  have planned := arranged.repack r running
  have adopts := adopts_adopt arranged.registry r
  generalize a.adopt r = b at adopts
  refine ⟨adopts.registry, adopts.packed ?_ ?_, ?_, ?_⟩
  · rw [adopts.image]
    exact pos_of_mem_allowedSides planned.side
  · rw [adopts.image]
    refine planned.places.mono (Capacity.Le.refl _) fun id p placed => ?_
    rw [placement?, adopts.slotOf] at placed
    exact place_settledSlot (arranged.registry.sound id) placed
  · rw [adopts.image]
    exact planned.side
  · intro other isOther
    cases adopts.repack.symm.trans isOther

theorem start {mode : RepackMode} {c : Capacity} {plan : Plan} (arranged : Arranged accepted a)
    (isTried : c ∈ mode.capacities a.image.capacity a.config.maxLayers) {items : List Item}
    (planned : planFor? items c = some plan) (handle count : Nat) :
    Arranged accepted { a with repackRequest := none, repack := some (plan.begin handle count items) } :=
  { arranged with
    repack := by
      intro r isRepack
      cases isRepack
      obtain ⟨rfl, places⟩ := placesSound_of_planFor? planned
      exact ⟨places, side_mem_of_capacities arranged.side isTried⟩ }

/-- A larger image has all places where they were, and the rest of it is free. -/
theorem enlarge {image : OwnedImage} (arranged : Arranged accepted a) (retired : List Nat)
    (grows : a.image.capacity.Grows image.capacity) :
    Arranged accepted { Frame.refreshEntries { a with image, retired } with tableStale := true }.rebuildBins := by
  obtain ⟨entries, tableStale, refreshed, refreshes⟩ := refreshEntries_eq { a with image, retired }
  have side := grows.allowed arranged.side
  rw [refreshed]
  exact
    { registry := refreshes accepted arranged.registry
      packed := Packed.rebuild (pos_of_mem_allowedSides side)
        (arranged.packed.sound.mono grows.larger fun _ _ found => found)
      side := side
      repack := arranged.repack }

theorem place {t : Texture} (arranged : Arranged accepted a) (texture : (a.slot id).texture = some t)
    (unplaced : (a.slot id).place = none) {width height : Nat} (found : a.place? id width height = some b) :
    Arranged accepted b := by
  obtain ⟨p, situates⟩ := situates_of_place? found
  have slotSound : (a.slot id).Sound (accepted id) := arranged.registry.sound id
  have hasTexture : (a.slot id).texture.isSome := by rw [texture]; rfl
  have bound := lt_of_isRegistered (slotSound.registered hasTexture)
  exact arranged.edit situates.edits
    (situates.registry arranged.registry hasTexture (slotSound.invalid_of_unplaced unplaced))
    (arranged.packed.situate situates bound unplaced)

theorem reveal {t : Texture} {p : Placement} (arranged : Arranged accepted a) (texture : (a.slot id).texture = some t)
    (placed : (a.slot id).place = some p) : Arranged accepted ((a.modifySlot id Slot.uploaded).showPlace id) := by
  have slotSound : (a.slot id).Sound (accepted id) := arranged.registry.sound id
  have registered : (a.slot id).isRegistered = true := slotSound.registered (by rw [texture]; rfl)
  have sizes := arranged.registry.sizes
  have reveals := reveals_showPlace sizes (lt_of_isRegistered registered) placed
  exact arranged.edit reveals.edits (reveals.registry arranged.registry registered placed)
    (arranged.packed.reveal reveals)

/-- What one step of recording a flush keeps. -/
theorem flushStep (arranged : Arranged accepted a) (step : FlushStep a b) : Arranged accepted b := by
  cases step with
  | adopt running _ => exact arranged.adopt running
  | start handle _ _ isTried planned => exact arranged.start isTried planned handle _
  | enlarge handle grows =>
    obtain ⟨_, capacity⟩ := Frame.copyCommands_image a.image ⟨handle, _, .undefined⟩
    exact arranged.enlarge _ (capacity ▸ grows)
  | place texture unplaced found => exact arranged.place texture unplaced found
  | reveal texture placed => exact arranged.reveal texture placed
  | turn layout =>
    have capacity := a.image.turn_capacity layout
    exact
      { arranged with
        packed := capacity ▸ arranged.packed
        side := capacity ▸ arranged.side }
  | take =>
    have taken := arranged.mapRepack (fun r => { r with queue := r.queue.drain.2 }) (fun _ => rfl) fun _ => rfl
    exact { taken with }
  | requeuePlanned id => exact arranged.mapRepack _ (fun _ => rfl) fun _ => rfl
  | turnRepack layout => exact arranged.mapRepack _ (fun _ => rfl) fun r => r.image.turn_capacity layout
  | await =>
    refine arranged.mapRepack _ (fun r => ?_) fun r => ?_
    · split <;> rfl
    · split <;> rfl
  | dropRequest _ | meetRequest | requeue id | refresh => exact { arranged with }

theorem flush (arranged : Arranged accepted a) (device : Device) (staging : Staging) :
    Arranged accepted (a.flush device staging).atlas :=
  flush_induction arranged (fun _ _ step before => before.flushStep step) device staging

theorem empty {left : Slot} (arranged : Arranged accepted a) (empties : Empties id left a b)
    (registered : (a.slot id).isRegistered = true) : Arranged accepted b :=
  arranged.edit empties.edits (empties.registry arranged.registry registered)
    (arranged.packed.of_releasePlace empties.bins empties.edits.slotOf (empties.slot ▸ empties.place))

theorem register (arranged : Arranged accepted a) : Arranged accepted a.register.2 := by
  rcases handsOut_register arranged.registry with taken | handsOut
  · rw [taken]
    exact arranged
  · exact arranged.edit handsOut.edits (handsOut.registry arranged.registry)
      (arranged.packed.handOut handsOut arranged.registry)

theorem set (arranged : Arranged accepted a) (id width height pitch : Nat) (bytes : ByteArray) :
    ∃ changed, Arranged changed (a.set id width height pitch bytes).1 := by
  have sets := sets_set a id width height pitch bytes
  generalize a.set id width height pitch bytes = result at sets
  cases sets with
  | ignored _ => exact ⟨accepted, arranged⟩
  | refused _ => exact ⟨accepted, arranged⟩
  | rejected _ registered => exact ⟨accepted, arranged.empty (empties_reject registered) registered⟩
  | loaded t _ registered reads =>
    have loads := loads_load registered t
    exact ⟨_, arranged.edit loads.edits (loads.registry arranged.registry registered reads)
      (arranged.packed.load loads)⟩

theorem clear (arranged : Arranged accepted a) (id : Nat) : Arranged accepted (a.clear id).1 := by
  unfold Atlas.clear
  split
  · exact arranged
  · split
    · exact arranged
    · rename_i checked
      have registered := isRegistered_of_check checked
      exact arranged.empty (empties_clear registered) registered

theorem remove (arranged : Arranged accepted a) (id : Nat) : Arranged accepted (a.remove id).1 := by
  unfold Atlas.remove
  split
  · exact arranged
  · split
    · exact arranged
    · rename_i checked
      have registered := isRegistered_of_check checked
      have empties := empties_discard registered
      simp only
      generalize a.forget id Slot.discarded = b at empties
      have forgotten := arranged.empty empties registered
      have inUse := arranged.registry.not_mem_freeIds registered
      exact
        { forgotten with
          registry := forgotten.registry.giveBack (congrArg Slot.status empties.slot) (empties.freeIds ▸ inUse) }

/-- What one action keeps. -/
theorem step (arranged : Arranged accepted w.atlas) (action : Action) :
    ∃ changed, Arranged changed (w.step action).atlas := by
  cases action with
  | register => exact ⟨_, arranged.register⟩
  | set id width height pitch bytes =>
    rw [World.atlas_step_set]
    exact arranged.set id width height pitch bytes
  | clear id => exact ⟨_, arranged.clear id⟩
  | remove id => exact ⟨_, arranged.remove id⟩
  | flush => exact ⟨_, arranged.flush w.device w.staging⟩
  | submit =>
    simp only [World.step]
    split <;> exact ⟨_, arranged⟩
  | reserve count alignment bytes =>
    simp only [World.step]
    split <;> exact ⟨_, arranged⟩
  | finish =>
    have mapped := arranged.mapRepack
      (fun r => if r.progress = .waiting ∧ r.queue.isEmpty then { r with progress := .ready } else r)
      (fun r => by split <;> rfl) fun r => by split <;> rfl
    exact ⟨accepted, { mapped with }⟩
  | requestLayers _ | requestRepack _ | limitMemory _ => exact ⟨accepted, { arranged with }⟩

end Arranged

theorem arranged_of_create {c : Config} {device live : Device} {given : Option Staging} {staging : Staging}
    (created : Atlas.create c device given = .ok (a, live, staging)) : Arranged (fun _ => none) a := by
  obtain ⟨valid, _, handle, _, rfl⟩ := create_eq_ok_iff.mp created
  have side := initialSide_mem_of_validate valid
  exact ⟨registry_ofImage c _ _ _, packed_ofImage side, side, fun _ running => by cases running⟩

namespace World

/-- In all states of a run, whatever is called, refused and recorded: only ids in use have places. These lie in the live
image and have no texel in common, and the free rectangles of its layers, none empty and no two with a common texel,
hold just the texels that no place holds. -/
theorem packed_of_create {c : Config} {device : Device} {given : Option Staging}
    (created : Atlas.create c device given = .ok (w.atlas, w.device, w.staging)) (actions : List Action) :
    let a := (actions.foldl step w).atlas
    (∀ id p, a.placement? id = some p → (a.slot id).isRegistered = true) ∧
      Packed a.placement? a.bins a.image.capacity := by
  intro a
  -- The buffers accepted differ from state to state; they only tie each texture to the call that set it.
  have arranged : ∃ accepted, Arranged accepted a :=
    List.foldlRecOn (motive := fun w : World => ∃ accepted, Arranged accepted w.atlas) actions step
      ⟨_, arranged_of_create created⟩ fun _ before action _ => before.choose_spec.step action
  obtain ⟨accepted, arranged⟩ := arranged
  refine ⟨fun id p placed => ?_, arranged.packed⟩
  have slotSound : (a.slot id).Sound (accepted id) := arranged.registry.sound id
  have isPlaced : (a.slot id).place = some p := placed
  exact slotSound.registered (slotSound.loaded (by rw [isPlaced]; rfl))

/-- The place in the image of a repack, and what is free around it. -/
theorem packed_of_create_moved : sample.Starts ∧ moved.atlas.image.handle ≠ sample.atlas.image.handle ∧
    moved.atlas.placement? 2 = some ⟨0, 0, 3, 3, 0⟩ ∧
    moved.atlas.bins.map (·.free) = [[⟨0, 3, 1024, 1021⟩, ⟨3, 0, 1021, 3⟩]] ∧
    (∀ id p, moved.atlas.placement? id = some p → (moved.atlas.slot id).isRegistered = true) ∧
    Packed moved.atlas.placement? moved.atlas.bins moved.atlas.image.capacity := by
  obtain ⟨_, _, _, _, created, _⟩ := starts_sample
  have shown : moved.atlas.image.handle ≠ sample.atlas.image.handle ∧
      moved.atlas.placement? 2 = some ⟨0, 0, 3, 3, 0⟩ ∧
      moved.atlas.bins.map (·.free) = [[⟨0, 3, 1024, 1021⟩, ⟨3, 0, 1021, 3⟩]] := by
    decide +kernel
  refine ⟨starts_sample, shown.1, shown.2.1, shown.2.2, ?_⟩
  have course : moved = (drawing ++ [Action.requestRepack .keepCapacity, Action.flush] ++ moving).foldl step sample := by
    rw [List.foldl_append, List.foldl_append, moved, asked, drawn, List.foldl_cons, List.foldl_cons, List.foldl_nil]
  rw [course]
  exact packed_of_create created _

end World

end TextureLoom.Atlas
