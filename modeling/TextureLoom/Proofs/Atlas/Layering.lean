import TextureLoom.Proofs.Atlas.Settling

set_option autoImplicit false

namespace TextureLoom.Atlas

variable {accepted : Nat → Option PixelBuffer} {a b c : Atlas} {id : Nat}

/-- Images are as large as they were, and as many layers are asked for. -/
structure SameSize (a b : Atlas) : Prop where
  config : b.config = a.config
  image : b.image.capacity = a.image.capacity
  request : b.layerRequest = a.layerRequest
  repack : ∀ r, b.repack = some r → ∃ o, a.repack = some o ∧ r.image.capacity = o.image.capacity

namespace SameSize

theorem refl (a : Atlas) : SameSize a a := ⟨rfl, rfl, rfl, fun r running => ⟨r, running, rfl⟩⟩

theorem trans (first : SameSize a b) (second : SameSize b c) : SameSize a c where
  config := second.config.trans first.config
  image := second.image.trans first.image
  request := second.request.trans first.request
  repack := by
    intro r running
    obtain ⟨middle, isMiddle, later⟩ := second.repack r running
    obtain ⟨o, isOld, earlier⟩ := first.repack middle isMiddle
    exact ⟨o, isOld, later.trans earlier⟩

theorem of_edits (edits : Edits id a b) (request : b.layerRequest = a.layerRequest) : SameSize a b where
  config := edits.config
  image := congrArg OwnedImage.capacity edits.image
  request := request
  repack := by
    intro r running
    obtain ⟨o, isOld, follows⟩ := edits.repack r running
    exact ⟨o, isOld, congrArg OwnedImage.capacity follows.image⟩

/-- A running repack is changed, its image not in its size. -/
theorem mapRepack {change : Repack → Repack} (capacity : ∀ r, (change r).image.capacity = r.image.capacity) :
    ∀ r, a.repack.map change = some r → ∃ o, a.repack = some o ∧ r.image.capacity = o.image.capacity := by
  intro r running
  obtain ⟨o, isOld, rfl⟩ := Option.map_eq_some_iff.mp running
  exact ⟨o, isOld, capacity o⟩

end SameSize

/-- No image has more layers than the configuration allows, and no more are asked for. -/
structure Layered (a : Atlas) : Prop where
  image : a.image.capacity.layers ≤ a.config.maxLayers
  request : a.layerRequest ≤ a.config.maxLayers
  repack : ∀ r, a.repack = some r → r.image.capacity.layers ≤ a.config.maxLayers

theorem Layered.sameSize (layered : a.Layered) (same : SameSize a b) : b.Layered := by
  refine ⟨?_, ?_, fun r running => ?_⟩ <;> rw [same.config]
  · rw [same.image]
    exact layered.image
  · rw [same.request]
    exact layered.request
  · obtain ⟨o, isOld, capacity⟩ := same.repack r running
    rw [capacity]
    exact layered.repack o isOld

theorem layerRequest_load (a : Atlas) (id : Nat) (t : Texture) : (a.load id t).layerRequest = a.layerRequest := by
  have marked : ∀ m : Atlas, (if (m.placement? id).isNone then m.setEntry id .pending else m).layerRequest =
      m.layerRequest := by
    intro m
    split <;> rfl
  rw [load]
  rcases releaseResized_cases a id t.width t.height with ⟨kept, _⟩ | released
  · rw [kept]
    exact marked _
  · rw [released]
    exact marked _

theorem Layered.serves (layered : a.Layered) (serves : Serves a b) : b.Layered := by
  cases serves with
  | handOut _ _ handsOut => exact layered.sameSize (.of_edits handsOut.edits rfl)
  | reject registered => exact layered.sameSize (.of_edits (empties_reject registered).edits rfl)
  | clear registered => exact layered.sameSize (.of_edits (empties_clear registered).edits rfl)
  | remove freeIds registered =>
    have forgotten := layered.sameSize (.of_edits (empties_discard registered).edits rfl)
    exact ⟨forgotten.image, forgotten.request, forgotten.repack⟩
  | @load id t registered =>
    exact layered.sameSize (.of_edits (loads_load registered t).edits (layerRequest_load a id t))
  | requestLayers count =>
    refine ⟨layered.image, Nat.max_le.mpr ⟨layered.request, Nat.min_le_right _ _⟩, layered.repack⟩
  | finish =>
    refine layered.sameSize ⟨rfl, rfl, rfl, SameSize.mapRepack fun r => ?_⟩
    split <;> rfl
  | none | requestRepack _ => exact ⟨layered.image, layered.request, layered.repack⟩

theorem layers_of_capacitiesOf {side first last : Nat} {c : Capacity} (member : c ∈ capacitiesOf side first last) :
    c.layers ≤ last := by
  obtain ⟨layers, inRange, rfl⟩ := List.mem_map.mp member
  obtain ⟨least, bound⟩ := List.mem_range'_1.mp inRange
  simp only
  omega

theorem layers_of_growthSteps {present c : Capacity} {maxLayers width height : Nat}
    (fits : present.layers ≤ maxLayers) (member : c ∈ growthSteps present maxLayers width height) :
    c.layers ≤ maxLayers := by
  unfold growthSteps at member
  split at member
  · rcases List.mem_append.mp member with deeper | longer
    · exact layers_of_capacitiesOf deeper
    · obtain ⟨side, _, rfl⟩ := List.mem_map.mp longer
      exact Nat.max_le.mpr ⟨fits, Nat.le_refl _⟩
  · obtain ⟨side, _, rfl⟩ := List.mem_map.mp member
    exact fits

theorem layers_of_capacities {mode : RepackMode} {present c : Capacity} {maxLayers : Nat}
    (fits : present.layers ≤ maxLayers) (member : c ∈ mode.capacities present maxLayers) : c.layers ≤ maxLayers := by
  cases mode with
  | tightest =>
    obtain ⟨side, _, inLayers⟩ := List.mem_flatMap.mp member
    exact layers_of_capacitiesOf inLayers
  | keepCapacity =>
    cases List.mem_singleton.mp member
    exact fits
  | allowGrowth =>
    rcases List.mem_append.mp member with deeper | longer
    · exact Nat.le_trans (layers_of_capacitiesOf deeper) (Nat.max_le.mpr ⟨Nat.le_refl _, fits⟩)
    · obtain ⟨side, _, inLayers⟩ := List.mem_flatMap.mp longer
      exact layers_of_capacitiesOf inLayers

namespace Frame

variable {f g next : Frame}

theorem layered_adoptReady (layered : f.atlas.Layered)
    (registry : Registry accepted f.atlas.config.maxTextureId f.atlas.slots f.atlas.entries f.atlas.freeIds
      f.atlas.nextId) : f.adoptReady.atlas.Layered := by
  rcases f.adoptReady_cases with ⟨r, running, _, isAtlas⟩ | ⟨_, isAtlas⟩
  · have adopts := adopts_adopt registry r
    rw [isAtlas]
    refine ⟨?_, ?_, fun o isOther => ?_⟩
    · rw [adopts.config, adopts.image]
      exact layered.repack r running
    · rw [adopts.config, (adopt_keeps f.atlas r).2.2]
      exact layered.request
    · cases adopts.repack.symm.trans isOther
  · rw [isAtlas]
    exact layered

theorem layered_startRequested (layered : f.atlas.Layered) : f.startRequested.atlas.Layered := by
  have dropped : ({ f.atlas with repackRequest := none } : Atlas).Layered :=
    ⟨layered.image, layered.request, layered.repack⟩
  unfold startRequested
  split
  · rename_i mode idle asked
    unfold startRepack
    dsimp only
    split
    · exact dropped
    · split
      · rw [announce_atlas]
        exact dropped
      · rename_i plan found
        obtain ⟨c, isTried, planned⟩ := List.exists_of_findSome?_eq_some found
        obtain ⟨rfl, _⟩ := placesSound_of_planFor? planned
        unfold startPlanned
        split
        · rw [announce_atlas]
          exact layered
        · rw [announce_atlas]
          refine ⟨layered.image, layered.request, fun r isRepack => ?_⟩
          cases isRepack
          exact layers_of_capacities layered.image isTried
  · exact layered

theorem layered_grow (layered : f.atlas.Layered) {capacity : Capacity}
    (fits : capacity.layers ≤ f.atlas.config.maxLayers) : (f.grow capacity).2.atlas.Layered := by
  simp only [grow]
  split
  · rw [announce_atlas]
    exact layered
  · rename_i handle device created
    dsimp only [modifyAtlas, record]
    rw [enlarged_eq]
    refine ⟨?_, layered.request, layered.repack⟩
    rw [(copyCommands_image f.atlas.image ⟨handle, capacity, .undefined⟩).2]
    exact fits

theorem layered_growRequested (layered : f.atlas.Layered) : f.growRequested.atlas.Layered := by
  have met : ∀ a : Atlas, a.Layered → ({ a with layerRequest := 0 } : Atlas).Layered :=
    fun a layered => ⟨layered.image, Nat.zero_le _, layered.repack⟩
  simp only [growRequested]
  split
  · exact met _ layered
  · have grown : (f.grow ⟨f.atlas.side, f.atlas.layerRequest⟩).2.atlas.Layered := layered_grow layered layered.request
    generalize f.grow ⟨f.atlas.side, f.atlas.layerRequest⟩ = result at grown ⊢
    obtain ⟨_ | _, g⟩ := result
    · exact grown
    · exact met _ grown

theorem layered_place? {width height : Nat} (layered : a.Layered) (found : a.place? id width height = some b) :
    b.Layered := by
  obtain ⟨_, _, rfl⟩ := Option.map_eq_some_iff.mp found
  exact ⟨layered.image, layered.request, layered.repack⟩

theorem layered_growUntilPlaced {width height : Nat} {steps : List Capacity} (layered : f.atlas.Layered)
    (fits : ∀ capacity ∈ steps, capacity.layers ≤ f.atlas.config.maxLayers) :
    (growUntilPlaced id width height steps f).2.atlas.Layered := by
  induction steps generalizing f with
  | nil => exact layered
  | cons capacity rest ih =>
    have grown := layered_grow layered (fits capacity List.mem_cons_self)
    obtain ⟨_, config, _⟩ := grow_keeps f capacity
    rw [growUntilPlaced]
    generalize f.grow capacity = result at grown config
    obtain ⟨_ | _, g⟩ := result
    · exact grown
    · dsimp only at grown config ⊢
      split
      · rename_i b found
        exact layered_place? grown found
      · refine ih grown fun later member => ?_
        rw [config]
        exact fits later (List.mem_cons_of_mem capacity member)

theorem layered_placeWaiting {short : Bool × Frame} (layered : short.2.atlas.Layered) (id : Nat) :
    (placeWaiting short id).2.atlas.Layered := by
  rcases placeWaiting_cases short id with ⟨_, same⟩ | ⟨t, _, _, isPlacing⟩
  · rw [same]
    exact layered
  · have placed : (short.2.place id (t.width + 2 * short.2.atlas.config.padding)
        (t.height + 2 * short.2.atlas.config.padding)).2.atlas.Layered := by
      unfold place
      split
      · rename_i b found
        exact layered_place? layered found
      · exact layered_growUntilPlaced layered fun c member => layers_of_growthSteps layered.image member
    rw [isPlacing]
    generalize short.2.place id _ _ = result at placed
    obtain ⟨_ | _, g⟩ := result
    · exact ⟨placed.image, placed.request, placed.repack⟩
    · exact placed

theorem layered_placeAllWaiting (layered : f.atlas.Layered) (ids : List Nat) :
    (f.placeAllWaiting ids).atlas.Layered := by
  have placed : (ids.foldl placeWaiting (false, f)).2.atlas.Layered :=
    List.foldlRecOn (motive := fun short => short.2.atlas.Layered) ids placeWaiting layered
      fun short before id _ => layered_placeWaiting before id
  unfold placeAllWaiting
  generalize ids.foldl placeWaiting (false, f) = result at placed ⊢
  obtain ⟨_ | _, g⟩ := result
  · exact placed
  · rw [announce_atlas]
    exact placed

theorem sameSize_turnLive (f : Frame) (layout : Layout) : SameSize f.atlas (f.turnLive layout).atlas :=
  ⟨rfl, f.atlas.image.turn_capacity layout, rfl, fun r running => ⟨r, running, rfl⟩⟩

theorem sameSize_turnRepack (f : Frame) (layout : Layout) : SameSize f.atlas (f.turnRepack layout).atlas := by
  rw [turnRepack_atlas]
  exact ⟨rfl, rfl, rfl, SameSize.mapRepack fun r => r.image.turn_capacity layout⟩

theorem sameSize_uploadWaiting (f : Frame) (id : Nat) : SameSize f.atlas (f.uploadWaiting id).atlas := by
  rcases uploadWaiting_cases f id with ⟨_, same⟩ | ⟨t, p, _, _, full | ⟨start, next, staged, isUploaded⟩⟩
  · rw [same]
    exact .refl _
  · rw [full, modifyAtlas, announce_atlas]
    exact ⟨rfl, rfl, rfl, fun r running => ⟨r, running, rfl⟩⟩
  · rw [isUploaded, ← atlas_of_stage staged]
    have edits := (edits_modifySlot (next.turnLive .transferTarget).atlas id Slot.uploaded).trans
      (edits_showPlace _ id)
    exact (sameSize_turnLive next .transferTarget).trans (.of_edits edits (layerRequest_showPlace _ id))

theorem sameSize_uploadAll (f : Frame) (ids : List Nat) : SameSize f.atlas (ids.foldl uploadWaiting f).atlas :=
  List.foldlRecOn (motive := fun g => SameSize f.atlas g.atlas) ids uploadWaiting (.refl _)
    fun g before id _ => before.trans (sameSize_uploadWaiting g id)

theorem sameSize_uploadPlanned (written : Bool × Frame) (id : Nat) :
    SameSize written.2.atlas (uploadPlanned written id).2.atlas := by
  rcases uploadPlanned_cases written id with ⟨_, same⟩ |
    ⟨r, t, p, _, _, _, full | ⟨start, next, staged, isUploaded⟩⟩
  · rw [same]
    exact .refl _
  · rw [full, modifyAtlas, announce_atlas]
    exact ⟨rfl, rfl, rfl, SameSize.mapRepack fun _ => rfl⟩
  · rw [isUploaded, ← atlas_of_stage staged]
    exact sameSize_turnRepack next .transferTarget

theorem sameSize_closing (f : Frame) (written : Bool) :
    SameSize f.atlas (((f.uploadTable).turnLive .shaderRead).finishRepack written).atlas := by
  have tabled : SameSize f.atlas f.uploadTable.atlas := by
    unfold uploadTable
    split
    · dsimp only
      split
      · rw [announce_atlas]
        exact .refl _
      · rename_i found
        simp only [modifyAtlas, record, atlas_of_stage found]
        exact ⟨rfl, rfl, rfl, fun r running => ⟨r, running, rfl⟩⟩
    · exact .refl _
  have finished : ∀ g : Frame, SameSize g.atlas (g.finishRepack written).atlas := by
    intro g
    have turned : SameSize g.atlas (if written then g.turnRepack .shaderRead else g).atlas := by
      split
      · exact sameSize_turnRepack g .shaderRead
      · exact .refl _
    refine turned.trans ⟨rfl, rfl, rfl, SameSize.mapRepack fun r => ?_⟩
    split <;> rfl
  exact (tabled.trans (sameSize_turnLive _ .shaderRead)).trans (finished _)

theorem sameSize_finish (f : Frame) (planned : List Nat) : SameSize f.atlas (f.finish planned).atlas := by
  have filled : SameSize f.atlas (planned.foldl uploadPlanned (false, f)).2.atlas :=
    List.foldlRecOn (motive := fun written => SameSize f.atlas written.2.atlas) planned uploadPlanned (.refl _)
      fun written before id _ => before.trans (sameSize_uploadPlanned written id)
  exact filled.trans (sameSize_closing _ _)

theorem layered_gathered (layered : f.atlas.Layered)
    (registry : Registry accepted f.atlas.config.maxTextureId f.atlas.slots f.atlas.entries f.atlas.freeIds
      f.atlas.nextId) : f.gathered.atlas.Layered := by
  have grown := layered_growRequested (layered_startRequested (layered_adoptReady layered registry))
  unfold gathered
  rw [takeWaiting_eq]
  exact grown.sameSize ⟨rfl, rfl, rfl, SameSize.mapRepack fun _ => rfl⟩

/-- A flush grows images no further than the configuration allows. -/
theorem layered_flush (layered : f.atlas.Layered)
    (registry : Registry accepted f.atlas.config.maxTextureId f.atlas.slots f.atlas.entries f.atlas.freeIds
      f.atlas.nextId) : f.flush.atlas.Layered := by
  have placed := layered_placeAllWaiting (layered_gathered layered registry)
    f.adoptReady.startRequested.growRequested.takeWaiting.1
  exact placed.sameSize ((sameSize_uploadAll _ _).trans (sameSize_finish _ _))

end Frame

/-- What any actions keep. -/
theorem Layered.run {w : World} (layered : w.atlas.Layered) (orderly : w.atlas.Orderly) (actions : List Action) :
    (actions.foldl World.step w).atlas.Layered := by
  induction actions generalizing w with
  | nil => exact layered
  | cons action rest ih =>
    refine ih ?_ (World.succeeds_step orderly action).toOrderly
    by_cases flushes : action = .flush
    · subst flushes
      obtain ⟨_, registry⟩ := orderly.registry
      exact Frame.layered_flush (f := w.frame) layered registry
    · exact layered.serves (World.serves_of_step orderly flushes)

theorem layered_of_create {c : Config} {device live : Device} {given : Option Staging} {staging : Staging}
    (created : Atlas.create c device given = .ok (a, live, staging)) :
    a.Layered ∧ a.config.maxLayers ≤ layerLimit := by
  obtain ⟨valid, _, handle, _, rfl⟩ := create_eq_ok_iff.mp created
  obtain ⟨some, few, _⟩ := bounds_of_validate valid
  exact ⟨⟨some, Nat.zero_le _, fun r running => by cases running⟩, few⟩

end TextureLoom.Atlas
