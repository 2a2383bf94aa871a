import Mathlib.Logic.Relation
import TextureLoom.Proofs.Atlas.Growing

set_option autoImplicit false

namespace TextureLoom.Atlas

/-- The repack that starts with a plan: nothing is uploaded so far, and all items are queued. -/
def Plan.begin (plan : Plan) (handle count : Nat) (items : List Item) : Repack :=
  ⟨⟨handle, plan.capacity, .undefined⟩, plan.places,
    items.foldl (fun q item => q.push item.id) (Queue.create count), .draining⟩

/-- What recording a flush does to an atlas at one go. -/
inductive FlushStep (a : Atlas) : Atlas → Prop where
  | adopt {r : Repack} : a.repack = some r → r.progress = .ready → FlushStep a (a.adopt r)
  /-- There is nothing to repack, or no image would hold it. -/
  | dropRequest : a.repack = none → FlushStep a { a with repackRequest := none }
  | start {mode : RepackMode} {c : Capacity} {plan : Plan} (handle : Nat) : a.repack = none →
      a.repackRequest = some mode → c ∈ mode.capacities a.image.capacity a.config.maxLayers →
      planFor? a.repackItems c = some plan →
      FlushStep a { a with
        repackRequest := none
        repack := some (plan.begin handle a.config.maxTextureId a.repackItems) }
  | enlarge {capacity : Capacity} (handle : Nat) : a.image.capacity.Grows capacity →
      FlushStep a { Frame.refreshEntries { a with
        image := (Frame.copyCommands a.image ⟨handle, capacity, .undefined⟩).2
        retired := a.retired ++ [a.image.handle] } with tableStale := true }.rebuildBins
  /-- The image has the layers asked for. -/
  | meetRequest : FlushStep a { a with layerRequest := 0 }
  /-- The ids that wait are taken from all queues. -/
  | take : FlushStep a { a with
      pending := a.pending.drain.2
      repack := a.repack.map fun r => { r with queue := r.queue.drain.2 } }
  | place {b : Atlas} {id : Nat} {t : Texture} : (a.slot id).texture = some t → (a.slot id).place = none →
      a.place? id (t.width + 2 * a.config.padding) (t.height + 2 * a.config.padding) = some b → FlushStep a b
  /-- An id waits for the next flush. -/
  | requeue (id : Nat) : FlushStep a { a with pending := a.pending.push id }
  | requeuePlanned (id : Nat) :
      FlushStep a { a with repack := a.repack.map fun r => { r with queue := r.queue.push id } }
  | turn (layout : Layout) : FlushStep a { a with image := (a.image.turn layout).1 }
  | turnRepack (layout : Layout) :
      FlushStep a { a with repack := a.repack.map fun r => { r with image := (r.image.turn layout).1 } }
  /-- An id is uploaded to its place. -/
  | reveal {id : Nat} {t : Texture} {p : Placement} : (a.slot id).texture = some t → (a.slot id).place = some p →
      FlushStep a ((a.modifySlot id Slot.uploaded).showPlace id)
  | refresh : FlushStep a { a with tableStale := false }
  /-- A running repack waits for the device once nothing is queued for it. -/
  | await : FlushStep a { a with
      repack := a.repack.map fun r => if r.queue.isEmpty then { r with progress := .waiting } else r }

namespace Frame

variable {f g next : Frame} {id : Nat} {t : Texture}

/-- A larger image in the place of the live one, its contents copied and the rows moved to it. -/
def enlarged (f : Frame) (capacity : Capacity) (handle : Nat) (device : Device) : Frame :=
  let copy := copyCommands f.atlas.image ⟨handle, capacity, .undefined⟩
  ({ f with device }.record copy.1).modifyAtlas fun a =>
    { refreshEntries { a with image := copy.2, retired := a.retired ++ [f.atlas.image.handle] } with
      tableStale := true }.rebuildBins

/-- What a flush does to a frame at one go, once a finished repack is shown and before the table is uploaded. -/
inductive Work (f : Frame) : Frame → Prop where
  | announce (event : Event) : Work f (f.announce event)
  | dropRequest : f.atlas.repack = none → Work f (f.modifyAtlas fun a => { a with repackRequest := none })
  | start {mode : RepackMode} {c : Capacity} {plan : Plan} {handle : Nat} {device : Device} :
      f.atlas.repack = none → f.atlas.repackRequest = some mode →
      c ∈ mode.capacities f.atlas.image.capacity f.atlas.config.maxLayers →
      planFor? f.atlas.repackItems c = some plan →
      f.device.createImage plan.capacity.side plan.capacity.layers = .ok (handle, device) →
      Work f ({ f with device }.modifyAtlas fun a => { a with
        repackRequest := none
        repack := some (plan.begin handle a.config.maxTextureId f.atlas.repackItems) })
  | enlarge {capacity : Capacity} {handle : Nat} {device : Device} : f.atlas.image.capacity.Grows capacity →
      f.device.createImage capacity.side capacity.layers = .ok (handle, device) →
      Work f (f.enlarged capacity handle device)
  | meetRequest : Work f (f.modifyAtlas fun a => { a with layerRequest := 0 })
  | take : Work f (f.modifyAtlas fun a => { a with
      pending := a.pending.drain.2
      repack := a.repack.map fun r => { r with queue := r.queue.drain.2 } })
  | place {b : Atlas} {id : Nat} {t : Texture} : (f.atlas.slot id).texture = some t →
      (f.atlas.slot id).place = none →
      f.atlas.place? id (t.width + 2 * f.atlas.config.padding) (t.height + 2 * f.atlas.config.padding) = some b →
      Work f { f with atlas := b }
  | requeue (id : Nat) : Work f (f.modifyAtlas fun a => { a with pending := a.pending.push id })
  | upload {id start : Nat} {t : Texture} {p : Placement} {next : Frame} : (f.atlas.slot id).texture = some t →
      (f.atlas.slot id).place = some p →
      f.stage (p.width * p.height * 4) (t.padded f.atlas.config.padding) = some (start, next) →
      Work f (((next.turnLive .transferTarget).record
        [uploadCommand (next.turnLive .transferTarget).atlas.image start p]).modifyAtlas fun a =>
          (a.modifySlot id Slot.uploaded).showPlace id)
  | requeuePlanned (id : Nat) : Work f (f.modifyAtlas fun a =>
      { a with repack := a.repack.map fun r => { r with queue := r.queue.push id } })
  | uploadPlanned {r : Repack} {id start : Nat} {t : Texture} {p : Placement} {next : Frame} :
      f.atlas.repack = some r → (f.atlas.slot id).texture = some t → r.places.get? id = some p →
      f.stage (p.width * p.height * 4) (t.padded f.atlas.config.padding) = some (start, next) →
      Work f ((next.turnRepack .transferTarget).record [uploadCommand r.image start p])

/-- One frame becomes the other by work of a flush. -/
def Works : Frame → Frame → Prop := Relation.ReflTransGen Work

namespace Works

theorem refl (f : Frame) : f.Works f := Relation.ReflTransGen.refl

theorem single (work : Work f g) : f.Works g := Relation.ReflTransGen.single work

theorem trans (first : f.Works g) (second : g.Works next) : f.Works next := Relation.ReflTransGen.trans first second

/-- What all work keeps. -/
theorem induction {motive : Frame → Prop} (works : f.Works g) (start : motive f)
    (step : ∀ g next, Work g next → motive g → motive next) : motive g := by
  induction works with
  | refl => exact start
  | tail _ work before => exact step _ _ work before

end Works

theorem works_grow {capacity : Capacity} (grows : f.atlas.image.capacity.Grows capacity) :
    f.Works (f.grow capacity).2 := by
  simp only [grow]
  split
  · exact .single (.announce _)
  · rename_i handle device created
    exact .single (.enlarge grows created)

theorem works_growRequested (f : Frame) : f.Works f.growRequested := by
  simp only [growRequested]
  split
  · exact .single .meetRequest
  · rename_i more
    have grown : f.Works (f.grow ⟨f.atlas.side, f.atlas.layerRequest⟩).2 :=
      works_grow ⟨⟨Nat.le_refl _, Nat.le_of_lt (Nat.not_le.mp more)⟩, Or.inl rfl⟩
    generalize f.grow ⟨f.atlas.side, f.atlas.layerRequest⟩ = result at grown ⊢
    obtain ⟨_ | _, g⟩ := result
    · exact grown
    · exact grown.trans (.single .meetRequest)

theorem works_growUntilPlaced {steps : List Capacity} (texture : (f.atlas.slot id).texture = some t)
    (unplaced : (f.atlas.slot id).place = none)
    (grows : (f.atlas.image.capacity :: steps).Pairwise Capacity.Grows) :
    f.Works (growUntilPlaced id (t.width + 2 * f.atlas.config.padding) (t.height + 2 * f.atlas.config.padding) steps
      f).2 := by
  induction steps generalizing f with
  | nil => exact .refl f
  | cons capacity rest ih =>
    rw [List.pairwise_cons] at grows
    have grown := works_grow (grows.1 capacity List.mem_cons_self)
    obtain ⟨slots, config, reached⟩ := grow_keeps f capacity
    rw [growUntilPlaced]
    generalize f.grow capacity = result at grown slots config reached
    obtain ⟨_ | _, g⟩ := result
    · exact grown
    · dsimp only at grown slots config reached ⊢
      -- Growth leaves the slots alone, so the id still has its texture and no place.
      have textureOf : (g.atlas.slot id).texture = some t := by rwa [slot, slots]
      have unplacedOf : (g.atlas.slot id).place = none := by rwa [slot, slots]
      rw [← config]
      split
      · rename_i b found
        exact grown.trans (.single (.place textureOf unplacedOf found))
      · refine grown.trans (ih textureOf unplacedOf ?_)
        rw [reached rfl]
        exact grows.2

theorem works_place (texture : (f.atlas.slot id).texture = some t) (unplaced : (f.atlas.slot id).place = none) :
    f.Works (f.place id (t.width + 2 * f.atlas.config.padding) (t.height + 2 * f.atlas.config.padding)).2 := by
  unfold place
  split
  · rename_i b found
    exact .single (.place texture unplaced found)
  · exact works_growUntilPlaced texture unplaced (growthSteps_grows _ _ _ _)

theorem works_placeWaiting (short : Bool × Frame) (id : Nat) : short.2.Works (placeWaiting short id).2 := by
  obtain ⟨isShort, f⟩ := short
  simp only [placeWaiting]
  split
  · rename_i t texture unplaced
    have placed := works_place texture unplaced
    simp only [paddedSize]
    generalize f.place id _ _ = result at placed ⊢
    obtain ⟨_ | _, g⟩ := result
    · exact placed.trans (.single (.requeue id))
    · exact placed
  · exact .refl f

theorem works_placing (f : Frame) (ids : List Nat) : f.Works (ids.foldl placeWaiting (false, f)).2 :=
  List.foldlRecOn (motive := fun short => f.Works short.2) ids placeWaiting (.refl f)
    fun short before id _ => before.trans (works_placeWaiting short id)

theorem works_placeAllWaiting (f : Frame) (ids : List Nat) : f.Works (f.placeAllWaiting ids) := by
  have placed := works_placing f ids
  unfold placeAllWaiting
  generalize ids.foldl placeWaiting (false, f) = result at placed ⊢
  obtain ⟨_ | _, g⟩ := result
  · exact placed
  · exact placed.trans (.single (.announce _))

theorem works_startRequested (f : Frame) : f.Works f.startRequested := by
  unfold startRequested
  split
  · rename_i mode idle asked
    have drops : f.Works (f.modifyAtlas fun a => { a with repackRequest := none }) := .single (.dropRequest idle)
    unfold startRepack
    dsimp only
    split
    · exact drops
    · rename_i item rest isItems
      split
      · exact drops.trans (.single (.announce _))
      · rename_i plan found
        obtain ⟨c, isTried, planned⟩ := List.exists_of_findSome?_eq_some found
        rw [← isItems] at planned ⊢
        simp only [startPlanned]
        split
        · exact .single (.announce _)
        · rename_i handle device created
          exact Works.trans (.single (.start idle asked isTried planned created)) (.single (.announce _))
  · exact .refl f

theorem takeWaiting_eq (f : Frame) : f.takeWaiting.2.2 = f.modifyAtlas fun a => { a with
    pending := a.pending.drain.2
    repack := a.repack.map fun r => { r with queue := r.queue.drain.2 } } := by
  simp only [takeWaiting, modifyAtlas]
  split
  · rename_i idle
    rw [idle]
    rfl
  · rename_i r running
    rw [running]
    rfl

theorem atlas_of_stage {count start : Nat} {bytes : ByteArray} (found : f.stage count bytes = some (start, next)) :
    next.atlas = f.atlas := by
  unfold stage at found
  split at found
  · cases found
  · cases found
    rfl

/-- A texture is staged, or the lack of room is announced. -/
theorem stageTexture_eq (f : Frame) (t : Texture) (p : Placement) :
    f.stageTexture t p = (none, f.announce .stagingOverflow) ∨
    ∃ start next, f.stageTexture t p = (some start, next) ∧
      f.stage (p.width * p.height * 4) (t.padded f.atlas.config.padding) = some (start, next) := by
  unfold stageTexture
  split
  · exact Or.inl rfl
  · exact Or.inr ⟨_, _, rfl, ‹_›⟩

theorem works_uploadWaiting (f : Frame) (id : Nat) : f.Works (f.uploadWaiting id) := by
  unfold uploadWaiting
  split
  · rename_i t p texture placed
    rcases stageTexture_eq f t p with full | ⟨start, next, fits, staged⟩
    · rw [full]
      exact Works.trans (.single (.announce _)) (.single (.requeue id))
    · rw [fits]
      exact .single (.upload texture placed staged)
  · exact .refl f

theorem works_uploadPlanned (written : Bool × Frame) (id : Nat) : written.2.Works (uploadPlanned written id).2 := by
  obtain ⟨isWritten, f⟩ := written
  simp only [uploadPlanned]
  split
  · rename_i r t running texture
    split
    · exact .refl f
    · rename_i p planned
      rcases stageTexture_eq f t p with full | ⟨start, next, fits, staged⟩
      · rw [full]
        exact Works.trans (.single (.announce _)) (.single (.requeuePlanned id))
      · rw [fits]
        exact .single (.uploadPlanned running texture planned staged)
  · exact .refl f

theorem works_uploadAll (f : Frame) (ids : List Nat) : f.Works (ids.foldl uploadWaiting f) :=
  List.foldlRecOn (motive := f.Works) ids uploadWaiting (.refl f)
    fun g before id _ => before.trans (works_uploadWaiting g id)

theorem works_planned (f : Frame) (ids : List Nat) : f.Works (ids.foldl uploadPlanned (false, f)).2 :=
  List.foldlRecOn (motive := fun written => f.Works written.2) ids uploadPlanned (.refl f)
    fun written before id _ => before.trans (works_uploadPlanned written id)

/-- A flush is work between showing a finished repack and uploading the table; then the images are readied. -/
theorem works_flush (f : Frame) : ∃ g written, f.adoptReady.Works g ∧
    f.flush = ((g.uploadTable).turnLive .shaderRead).finishRepack written := by
  have taken : f.adoptReady.Works f.adoptReady.startRequested.growRequested.takeWaiting.2.2 := by
    rw [takeWaiting_eq]
    exact ((works_startRequested _).trans (works_growRequested _)).trans (.single .take)
  exact ⟨_, _, ((taken.trans (works_placeAllWaiting _ _)).trans (works_uploadAll _ _)).trans (works_planned _ _), rfl⟩

/-- The atlas of one frame becomes that of the other in the course of a flush. -/
def Leads (f next : Frame) : Prop := Relation.ReflTransGen FlushStep f.atlas next.atlas

namespace Leads

theorem refl (f : Frame) : f.Leads f := Relation.ReflTransGen.refl

theorem trans {last : Frame} (first : f.Leads next) (second : next.Leads last) : f.Leads last :=
  Relation.ReflTransGen.trans first second

theorem of_eq (same : next.atlas = f.atlas) : f.Leads next := by
  rw [Leads, same]

theorem of_step (step : FlushStep f.atlas next.atlas) : f.Leads next := Relation.ReflTransGen.single step

end Leads

theorem leads_turnLive (f : Frame) (layout : Layout) : f.Leads (f.turnLive layout) := .of_step (.turn layout)

theorem turnRepack_atlas (f : Frame) (layout : Layout) : (f.turnRepack layout).atlas =
    { f.atlas with repack := f.atlas.repack.map fun r => { r with image := (r.image.turn layout).1 } } := by
  rcases running : f.atlas.repack with _ | r
  · have kept : f.turnRepack layout = f := by rw [turnRepack, running]
    rw [kept, Option.map_none, ← running]
  · rw [(turnRepack_eq running layout).1, Option.map_some]

theorem leads_turnRepack (f : Frame) (layout : Layout) : f.Leads (f.turnRepack layout) := by
  have step := FlushStep.turnRepack (a := f.atlas) layout
  rw [← turnRepack_atlas] at step
  exact .of_step step

theorem Work.leads (work : Work f g) : f.Leads g := by
  cases work with
  | announce event => exact .of_eq (announce_atlas f event)
  | dropRequest idle => exact .of_step (.dropRequest idle)
  | start idle asked isTried planned _ => exact .of_step (.start _ idle asked isTried planned)
  | enlarge grows _ => exact .of_step (.enlarge _ grows)
  | meetRequest => exact .of_step .meetRequest
  | take => exact .of_step .take
  | place texture unplaced found => exact .of_step (.place texture unplaced found)
  | requeue id => exact .of_step (.requeue id)
  | requeuePlanned id => exact .of_step (.requeuePlanned id)
  | upload texture placed staged =>
    have same := atlas_of_stage staged
    rw [← same] at texture placed
    exact (Leads.trans (.of_eq same) (leads_turnLive _ .transferTarget)).trans (.of_step (.reveal texture placed))
  | uploadPlanned _ _ _ staged => exact Leads.trans (.of_eq (atlas_of_stage staged)) (leads_turnRepack _ .transferTarget)

theorem Works.leads (works : f.Works g) : f.Leads g :=
  works.induction (.refl f) fun _ _ work before => before.trans work.leads

theorem leads_adoptReady (f : Frame) : f.Leads f.adoptReady := by
  unfold adoptReady
  split
  · exact .refl f
  · rename_i r running
    split
    · rename_i ready
      have adopted : f.Leads (f.modifyAtlas (·.adopt r)) := .of_step (.adopt running ready)
      exact adopted.trans (.of_eq (announce_atlas _ _))
    · exact .refl f

theorem leads_uploadTable (f : Frame) : f.Leads f.uploadTable := by
  unfold uploadTable
  split
  · simp only
    split
    · exact .of_eq (announce_atlas f _)
    · rename_i start g found
      exact Leads.trans (.of_eq (atlas_of_stage found)) (.of_step .refresh)
  · exact .refl f

theorem leads_finishRepack (f : Frame) (written : Bool) : f.Leads (f.finishRepack written) := by
  rw [finishRepack]
  refine Leads.trans ?_ (.of_step .await)
  split
  · exact leads_turnRepack f .shaderRead
  · exact .refl f

theorem leads_flush (f : Frame) : f.Leads f.flush := by
  obtain ⟨g, written, works, isFlush⟩ := works_flush f
  rw [isFlush]
  exact ((((leads_adoptReady f).trans works.leads).trans (leads_uploadTable g)).trans (leads_turnLive _ _)).trans
    (leads_finishRepack _ written)

end Frame

/-- What every step of recording keeps is kept by a flush. -/
theorem flush_induction {motive : Atlas → Prop} {a : Atlas} (start : motive a)
    (step : ∀ b c, FlushStep b c → motive b → motive c) (device : Device) (staging : Staging) :
    motive (a.flush device staging).atlas := by
  have leads : Relation.ReflTransGen FlushStep a (a.flush device staging).atlas :=
    Frame.leads_flush ⟨a, device, staging, #[], []⟩
  generalize (a.flush device staging).atlas = after at leads ⊢
  induction leads with
  | refl => exact start
  | tail _ next before => exact step _ _ next before

end TextureLoom.Atlas
