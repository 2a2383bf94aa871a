import Mathlib.Data.List.Induction
import TextureLoom.Proofs.Atlas.Retrying

set_option autoImplicit false

namespace TextureLoom.Atlas

variable {accepted : Nat → Option PixelBuffer} {a b : Atlas} {id side : Nat} {ids : List Nat} {t : Texture}

/-- The longer side of a texture with its padding. -/
def extent (a : Atlas) (t : Texture) : Nat := max t.width t.height + 2 * a.config.padding

/-- Any texture has room in an empty layer of the longest side. -/
def Holdable (a : Atlas) : Prop := ∀ id t, (a.slot id).texture = some t → a.extent t ≤ largestSide

theorem extent_le_of_sizeError? (small : sizeError? a.config id t.width t.height = none) :
    a.extent t ≤ largestSide := by
  unfold sizeError? at small
  split at small
  · cases small
  · split at small
    · cases small
    · unfold extent
      omega

theorem Fixes.extent (fixes : Fixes a b) (t : Texture) : b.extent t = a.extent t := by
  rw [Atlas.extent, Atlas.extent, fixes.config]

theorem Holdable.call (holdable : a.Holdable) (call : Call a b) (queued : Queued accepted a) : b.Holdable := by
  intro id t texture
  rw [call.fixes.extent]
  cases call.concerns queued id with
  | others slot _ _ =>
    rw [slot] at texture
    exact holdable id t texture
  | handedOut slot _ _ _ =>
    rw [slot] at texture
    cases texture
  | emptied none _ _ _ => cases none.symm.trans texture
  | loaded isTexture _ _ _ small =>
    cases isTexture.symm.trans texture
    exact extent_le_of_sizeError? small

theorem Holdable.leads {f g : Frame} (holdable : f.atlas.Holdable) (leads : f.Leads g)
    (queued : Queued accepted f.atlas) : g.atlas.Holdable := by
  intro id t texture
  rw [leads.fixes.extent]
  rw [(leads.sameData queued id).texture] at texture
  exact holdable id t texture

/-- No image of a repack is to be shown. -/
def Unready (a : Atlas) : Prop := ∀ r, a.repack = some r → r.progress ≠ .ready

theorem Unready.map (unready : a.Unready) {change : Repack → Repack}
    (goesOn : ∀ r, (change r).progress = r.progress ∨ (change r).progress = .waiting) :
    ∀ r, a.repack.map change = some r → r.progress ≠ .ready := by
  intro r running ready
  obtain ⟨o, isOld, rfl⟩ := Option.map_eq_some_iff.mp running
  rcases goesOn o with same | waits
  · exact unready o isOld (same.symm.trans ready)
  · cases waits.symm.trans ready

/-- Only when the image of a repack is shown, the live image can become smaller. -/
theorem FlushStep.larger (step : FlushStep a b) (unready : a.Unready) :
    a.image.capacity.Le b.image.capacity ∧ b.Unready := by
  have same := Capacity.Le.refl a.image.capacity
  cases step with
  | adopt running ready => exact absurd ready (unready _ running)
  | start handle idle asked isTried planned =>
    refine ⟨same, fun r running ready => ?_⟩
    cases running
    cases ready
  | enlarge handle grows =>
    rw [enlarged_eq]
    refine ⟨?_, unready⟩
    rw [(Frame.copyCommands_image a.image ⟨handle, _, .undefined⟩).2]
    exact grows.larger
  | place texture unplaced found =>
    obtain ⟨_, _, rfl⟩ := Option.map_eq_some_iff.mp found
    exact ⟨same, unready⟩
  | turn layout =>
    refine ⟨?_, unready⟩
    rw [OwnedImage.turn_capacity]
    exact same
  | @reveal id _ _ texture placed =>
    have edits := (edits_modifySlot a id Slot.uploaded).trans (edits_showPlace _ id)
    obtain ⟨_, repack⟩ := queues_showPlace (a.modifySlot id Slot.uploaded) id
    refine ⟨?_, fun r running => unready r ?_⟩
    · rw [edits.image]
      exact same
    · rwa [repack] at running
  | take => exact ⟨same, unready.map fun _ => Or.inl rfl⟩
  | requeuePlanned id => exact ⟨same, unready.map fun _ => Or.inl rfl⟩
  | turnRepack layout => exact ⟨same, unready.map fun _ => Or.inl rfl⟩
  | await =>
    refine ⟨same, unready.map fun r => ?_⟩
    split
    · exact Or.inr rfl
    · exact Or.inl rfl
  | dropRequest _ | meetRequest | requeue _ | refresh => exact ⟨same, unready⟩

/-- What placing relies on: sides and layers are allowed ones, and the image becomes no smaller. -/
structure Placeable (accepted : Nat → Option PixelBuffer) (a : Atlas) : Prop where
  queued : Queued accepted a
  layered : a.Layered
  holdable : a.Holdable
  unready : a.Unready

namespace Frame

variable {f g : Frame} {x : Bool × Frame}

theorem Leads.larger (leads : f.Leads g) (unready : f.atlas.Unready) :
    f.atlas.image.capacity.Le g.atlas.image.capacity ∧ g.atlas.Unready := by
  rw [Leads] at leads
  generalize g.atlas = b at leads
  induction leads with
  | refl => exact ⟨.refl _, unready⟩
  | tail _ step before =>
    obtain ⟨less, isUnready⟩ := step.larger before.2
    exact ⟨⟨Nat.le_trans before.1.1 less.1, Nat.le_trans before.1.2 less.2⟩, isUnready⟩

theorem placeable_placeWaiting (placeable : Placeable accepted x.2.atlas) (id : Nat) :
    Placeable accepted (placeWaiting x id).2.atlas := by
  have leads := (works_placeWaiting x id).leads
  exact ⟨placeable.queued.leads leads, layered_placeWaiting placeable.layered id,
    placeable.holdable.leads leads placeable.queued, (leads.larger placeable.unready).2⟩

/-- What has no place after all growth that the device granted, has none in an image of the longest side. That image has
all layers, if the shorter one would have held it. -/
theorem capacity_of_place {width height : Nat} (allowed : f.atlas.side ∈ allowedSides) (layered : f.atlas.Layered)
    (failed : (f.place id width height).1 = false)
    (granted : .deviceOutOfMemory ∉ (f.place id width height).2.events) :
    (f.place id width height).2.atlas.image.capacity = ⟨largestSide,
      if width ≤ f.atlas.side ∧ height ≤ f.atlas.side then f.atlas.config.maxLayers else f.atlas.layers⟩ := by
  unfold place at failed granted ⊢
  split at failed
  · cases failed
  · rename_i unplaced
    rw [unplaced] at granted
    rw [capacity_of_growUntilPlaced failed granted, getLastD_growthSteps allowed layered.image]
    rfl

/-- A waiting id has a place then, or it had none in an image as large as it could become. -/
theorem placeWaiting_outcome (placeable : Placeable accepted x.2.atlas)
    (texture : (x.2.atlas.slot id).texture = some t) :
    (((placeWaiting x id).2.atlas.slot id).place.isSome ∧ (placeWaiting x id).1 = x.1) ∨
    ((placeWaiting x id).2.atlas.slot id).place = none ∧ (placeWaiting x id).1 = true ∧
      (.deviceOutOfMemory ∉ (placeWaiting x id).2.events → (placeWaiting x id).2.atlas.image.capacity = ⟨largestSide,
        if x.2.atlas.extent t ≤ x.2.atlas.side then x.2.atlas.config.maxLayers else x.2.atlas.layers⟩) := by
  rcases placeWaiting_cases x id with ⟨idle, same⟩ | ⟨u, isTexture, unplaced, isPlacing⟩
  · have placed : (x.2.atlas.slot id).place.isSome :=
      idle.resolve_left fun none => by cases none.symm.trans texture
    rw [same]
    exact Or.inl ⟨placed, rfl⟩
  · cases texture.symm.trans isTexture
    have situated := situated_place x.2 id (t.width + 2 * x.2.atlas.config.padding)
      (t.height + 2 * x.2.atlas.config.padding)
    have capacity := @capacity_of_place id x.2 (t.width + 2 * x.2.atlas.config.padding)
      (t.height + 2 * x.2.atlas.config.padding) placeable.queued.side placeable.layered
    have fits : t.width + 2 * x.2.atlas.config.padding ≤ x.2.atlas.side ∧
        t.height + 2 * x.2.atlas.config.padding ≤ x.2.atlas.side ↔ x.2.atlas.extent t ≤ x.2.atlas.side := by
      unfold extent
      omega
    simp only [fits] at capacity
    rw [isPlacing]
    generalize x.2.place id _ _ = result at situated capacity
    obtain ⟨_ | _, g⟩ := result
    · refine Or.inr ⟨?_, rfl, capacity rfl⟩
      exact (congrArg Slot.place (situated.slotOf id)).trans unplaced
    · obtain ⟨p, placed⟩ := situated
      have inside := lt_of_isRegistered (placeable.queued.lt_of_texture texture).1
      refine Or.inl ⟨?_, rfl⟩
      rw [placed.slotOf, slot_modifySlot_self inside]
      rfl

/-- How ids with data fare whose places are looked for one after the other, in an image that had this side before. -/
structure Served (side : Nat) (ids : List Nat) (x : Bool × Frame) : Prop where
  longer : side ≤ x.2.atlas.side
  placed : x.1 = false ↔ ∀ id ∈ ids, (x.2.atlas.slot id).place.isSome
  /-- The image is as large as it can be, unless one texture is left that was longer than the image. -/
  short : x.1 = true → .deviceOutOfMemory ∉ x.2.events → x.2.atlas.side = largestSide ∧
    (x.2.atlas.layers = x.2.atlas.config.maxLayers ∨ ∃ id ∈ ids,
      (∃ t, (x.2.atlas.slot id).texture = some t ∧ side < x.2.atlas.extent t) ∧
        ∀ other ∈ ids, other ≠ id → (x.2.atlas.slot other).place.isSome)

/-- What the turn of an id leaves to the ids before it. -/
structure Turn (ids : List Nat) (x y : Bool × Frame) : Prop where
  fixes : Fixes x.2.atlas y.2.atlas
  larger : x.2.atlas.image.capacity.Le y.2.atlas.image.capacity
  longest : y.2.atlas.side ≤ largestSide
  deepest : y.2.atlas.layers ≤ y.2.atlas.config.maxLayers
  others : ∀ id ∈ ids, y.2.atlas.slot id = x.2.atlas.slot id
  granted : .deviceOutOfMemory ∉ y.2.events → .deviceOutOfMemory ∉ x.2.events

theorem turn_placeWaiting (placeable : Placeable accepted x.2.atlas) (outside : id ∉ ids) :
    Turn ids x (placeWaiting x id) := by
  have works := works_placeWaiting x id
  have after := placeable_placeWaiting placeable id
  have others : ∀ other ∈ ids, (placeWaiting x id).2.atlas.slot other = x.2.atlas.slot other := by
    intro other member
    have distinct : id ≠ other := fun same => outside (same.symm ▸ member)
    exact (spares_placeWaiting x distinct).slot
  exact ⟨works.leads.fixes, (works.leads.larger placeable.unready).1, le_largestSide after.queued.side,
    after.layered.image, others, mt ((Onward.of_works works placeable.queued.positive).events _)⟩

namespace Served

variable {y : Bool × Frame}

theorem mono {fewer : Nat} (served : Served side ids x) (less : fewer ≤ side) : Served fewer ids x where
  longer := Nat.le_trans less served.longer
  placed := served.placed
  short := by
    intro short granted
    obtain ⟨longest, all | ⟨id, member, ⟨t, texture, long⟩, only⟩⟩ := served.short short granted
    · exact ⟨longest, Or.inl all⟩
    · exact ⟨longest, Or.inr ⟨id, member, ⟨t, texture, Nat.lt_of_le_of_lt less long⟩, only⟩⟩

/-- The ids before it have places after the turn of an id just if they had before. -/
theorem placed_turn (served : Served side ids x) (turn : Turn ids x y) :
    (∀ other ∈ ids, (y.2.atlas.slot other).place.isSome) ↔ x.1 = false := by
  rw [served.placed]
  exact forall₂_congr fun other member => by rw [turn.others other member]

/-- An id has a place after its turn: the image is as large as it was, or larger. -/
theorem found (served : Served side ids x) (turn : Turn ids x y) (found : (y.2.atlas.slot id).place.isSome)
    (same : y.1 = x.1) : Served side (ids ++ [id]) y := by
  obtain ⟨longer, deeper⟩ := turn.larger
  refine ⟨Nat.le_trans served.longer longer, ?_, fun short granted => ?_⟩
  · rw [List.forall_mem_append, List.forall_mem_singleton, served.placed_turn turn, same]
    exact (and_iff_left found).symm
  · obtain ⟨before, rest⟩ := served.short (same ▸ short) (turn.granted granted)
    refine ⟨Nat.le_antisymm turn.longest (before ▸ longer), ?_⟩
    rcases rest with all | ⟨lone, member, ⟨t, texture, long⟩, only⟩
    · have least : y.2.atlas.config.maxLayers ≤ y.2.atlas.layers := by
        rw [turn.fixes.config, ← all]
        exact deeper
      exact Or.inl (Nat.le_antisymm turn.deepest least)
    · refine Or.inr ⟨lone, List.mem_append_left _ member, ⟨t, ?_, ?_⟩, ?_⟩
      · rw [turn.others lone member, texture]
      · rw [turn.fixes.extent]
        exact long
      · rw [List.forall_mem_append, List.forall_mem_singleton]
        refine ⟨fun other inIds distinct => ?_, fun _ => found⟩
        rw [turn.others other inIds]
        exact only other inIds distinct

/-- An id has none after its turn. If the image is not as large as it can be, it was shorter than the texture, so it had
not grown for one before. -/
theorem unfound (served : Served side ids x) (turn : Turn ids x y) (texture : (y.2.atlas.slot id).texture = some t)
    (holds : x.2.atlas.extent t ≤ largestSide) (unplaced : (y.2.atlas.slot id).place = none) (isShort : y.1 = true)
    (capacity : .deviceOutOfMemory ∉ y.2.events → y.2.atlas.image.capacity = ⟨largestSide,
      if x.2.atlas.extent t ≤ x.2.atlas.side then x.2.atlas.config.maxLayers else x.2.atlas.layers⟩) :
    Served side (ids ++ [id]) y := by
  refine ⟨Nat.le_trans served.longer turn.larger.1, ?_, fun _ granted => ?_⟩
  · rw [List.forall_mem_append, List.forall_mem_singleton, isShort, unplaced]
    simp
  · have reached := capacity granted
    refine ⟨congrArg Capacity.side reached, ?_⟩
    by_cases fits : x.2.atlas.extent t ≤ x.2.atlas.side
    · rw [if_pos fits, ← turn.fixes.config] at reached
      exact Or.inl (congrArg Capacity.layers reached)
    · -- For an id without a place before it, the image would have grown to the longest side already.
      have isFirst : x.1 = false := Bool.eq_false_iff.mpr fun short => by
        have before := (served.short short (turn.granted granted)).1
        omega
      have long : side < y.2.atlas.extent t := by
        have least := served.longer
        rw [turn.fixes.extent]
        omega
      refine Or.inr ⟨id, List.mem_append_right _ (List.mem_singleton_self id), ⟨t, texture, long⟩, ?_⟩
      rw [List.forall_mem_append, List.forall_mem_singleton]
      exact ⟨fun other inIds _ => (served.placed_turn turn).mpr isFirst other inIds, fun distinct => absurd rfl distinct⟩

/-- One id more. -/
theorem turn (served : Served side ids x) (placeable : Placeable accepted x.2.atlas) (outside : id ∉ ids)
    (texture : (x.2.atlas.slot id).texture = some t) : Served side (ids ++ [id]) (placeWaiting x id) := by
  have turn := turn_placeWaiting placeable outside
  have data := ((works_placeWaiting x id).leads.sameData placeable.queued id).texture.trans texture
  rcases placeWaiting_outcome placeable texture with ⟨found, same⟩ | ⟨unplaced, short, capacity⟩
  · exact served.found turn found same
  · exact served.unfound turn data (placeable.holdable id t texture) unplaced short capacity

end Served

/-- The waiting ids, one after the other. -/
theorem served_placing (placeable : Placeable accepted f.atlas) (distinct : ids.Nodup)
    (hasData : ∀ id ∈ ids, (f.atlas.slot id).texture.isSome) :
    Placeable accepted (ids.foldl placeWaiting (false, f)).2.atlas ∧
      Served f.atlas.side ids (ids.foldl placeWaiting (false, f)) := by
  -- The frame in which an id has its turn comes of the ids before it, so the last one is taken off.
  induction ids using List.reverseRecOn with
  | nil => exact ⟨placeable, Nat.le_refl _, by simp, by simp⟩
  | append_singleton ids id ih =>
    obtain ⟨earlier, _, apart⟩ := List.nodup_append.mp distinct
    have outside : id ∉ ids := fun member => apart id member id (List.mem_singleton_self id) rfl
    obtain ⟨isPlaceable, served⟩ := ih earlier fun other member => hasData other (List.mem_append_left _ member)
    have spares : f.Spares id (ids.foldl placeWaiting (false, f)).2 := spares_placing f outside
    obtain ⟨t, texture⟩ := Option.isSome_iff_exists.mp (hasData id (by simp))
    rw [← spares.slot] at texture
    rw [List.foldl_concat]
    exact ⟨placeable_placeWaiting isPlaceable id, served.turn isPlaceable outside texture⟩

theorem announces_uploadWaiting (f : Frame) (id : Nat) : Announces .stagingOverflow f (f.uploadWaiting id) := by
  rcases uploadWaiting_cases f id with ⟨_, same⟩ | ⟨t, p, _, _, full | ⟨start, next, staged, isUploaded⟩⟩
  · exact .of_eq (congrArg events same)
  · rw [full]
    exact .announce f .stagingOverflow
  · exact .of_eq ((congrArg events isUploaded).trans (keeps_of_stage staged).2.2)

theorem announces_uploadPlanned (written : Bool × Frame) (id : Nat) :
    Announces .stagingOverflow written.2 (uploadPlanned written id).2 := by
  rcases uploadPlanned_cases written id with ⟨_, same⟩ |
    ⟨r, t, p, _, _, _, full | ⟨start, next, staged, isUploaded⟩⟩
  · rw [same]
    exact .of_eq rfl
  · rw [full]
    exact .announce written.2 .stagingOverflow
  · have turned : (next.turnRepack .transferTarget).events = written.2.events :=
      (turnRepack_keeps next .transferTarget).2.1.trans (keeps_of_stage staged).2.2
    exact .of_eq ((congrArg events isUploaded).trans turned)

theorem announces_uploadTable (f : Frame) : Announces .stagingOverflow f f.uploadTable := by
  unfold uploadTable
  split
  · dsimp only
    split
    · exact .announce f .stagingOverflow
    · rename_i found
      exact .of_eq (keeps_of_stage found).2.2
  · exact .of_eq rfl

theorem announces_closing (f : Frame) (written : Bool) :
    Announces .stagingOverflow f (((f.uploadTable).turnLive .shaderRead).finishRepack written) := by
  refine (announces_uploadTable f).trans (.of_eq ?_)
  cases written with
  | true => exact (turnRepack_keeps _ .shaderRead).2.1
  | false => rfl

/-- Uploads leave places and the size of the image, and have nothing to announce but that the staging buffer is full. -/
structure Uploads (f g : Frame) : Prop where
  place : ∀ id, (g.atlas.slot id).place = (f.atlas.slot id).place
  capacity : g.atlas.image.capacity = f.atlas.image.capacity
  announces : Announces .stagingOverflow f g
  events : ∀ e ∈ f.events, e ∈ g.events

theorem uploads_waiting (f : Frame) (ids planned : List Nat) (positive : 0 < f.atlas.alignment) :
    f.Uploads ((ids.foldl uploadWaiting f).finish planned) where
  place := by
    intro id
    rw [(steady_finish _ planned).slotOf id]
    exact List.foldlRecOn (motive := fun g => (g.atlas.slot id).place = (f.atlas.slot id).place) ids uploadWaiting rfl
      fun g before tried _ => (place_uploadWaiting g tried id).trans before
  capacity := ((sameSize_uploadAll f ids).trans (sameSize_finish _ planned)).image
  announces := by
    have uploaded : Announces .stagingOverflow f (ids.foldl uploadWaiting f) :=
      List.foldlRecOn (motive := Announces .stagingOverflow f) ids uploadWaiting (.of_eq rfl)
        fun g before id _ => before.trans (announces_uploadWaiting g id)
    have filled : Announces .stagingOverflow f (planned.foldl uploadPlanned (false, ids.foldl uploadWaiting f)).2 :=
      List.foldlRecOn (motive := fun written => Announces .stagingOverflow f written.2) planned uploadPlanned uploaded
        fun written before id _ => before.trans (announces_uploadPlanned written id)
    exact filled.trans (announces_closing _ _)
  events := by
    have works := works_uploadAll f ids
    have alignment := works.leads.fixes.alignment
    exact ((Onward.of_works works positive).trans (onward_finish _ planned (alignment ▸ positive))).events

/-- Once all places are looked for, a flush uploads, and announces whether one was not found. -/
structure Closes (x : Bool × Frame) (g : Frame) : Prop where
  place : ∀ id, (g.atlas.slot id).place = (x.2.atlas.slot id).place
  capacity : g.atlas.image.capacity = x.2.atlas.image.capacity
  granted : .deviceOutOfMemory ∉ g.events → .deviceOutOfMemory ∉ x.2.events
  outOfSpace : .outOfSpace ∉ x.2.events → (.outOfSpace ∈ g.events ↔ x.1 = true)

theorem closes_of_uploads (uploads : (f.placeAllWaiting ids).Uploads g) :
    Closes (ids.foldl placeWaiting (false, f)) g := by
  unfold placeAllWaiting at uploads
  generalize ids.foldl placeWaiting (false, f) = x at uploads ⊢
  obtain ⟨_ | _, x⟩ := x
  · refine ⟨uploads.place, uploads.capacity, mt (uploads.events _), fun silent => ?_⟩
    refine iff_of_false (fun known => ?_) Bool.false_ne_true
    rcases uploads.announces _ known with overflow | earlier
    · cases overflow
    · exact silent earlier
  · have kept := announce_atlas x .outOfSpace
    refine ⟨fun id => ?_, ?_, mt fun known => uploads.events _ (events_announce known), fun _ => ?_⟩
    · rw [uploads.place, kept]
    · rw [uploads.capacity, kept]
    · exact iff_of_true (uploads.events _ (mem_announce x .outOfSpace)) rfl

/-- What has become of the waiting ids once a flush has looked for all their places. -/
def placing (f : Frame) : Bool × Frame := f.adoptReady.atlas.pending.drain.1.foldl placeWaiting (false, f.gathered)

theorem closes_flush (f : Frame) (positive : 0 < f.atlas.alignment) : Closes f.placing f.flush := by
  obtain ⟨planned, _, isFlush⟩ := f.flush_gathered
  have works := works_placeAllWaiting f.gathered f.adoptReady.atlas.pending.drain.1
  have leads := (f.leads_adoptReady.trans f.taken_gathered.works.leads).trans works.leads
  rw [isFlush]
  exact closes_of_uploads (uploads_waiting _ _ planned (leads.fixes.alignment ▸ positive))

/-- Without a repack, there is nothing to announce before places are looked for but that an image was refused. -/
theorem quiet_gathered (idle : f.atlas.repack = none) (unasked : f.atlas.repackRequest = none) :
    f.Quiet f.gathered := by
  unfold gathered
  rw [adoptReady_of_idle idle, startRequested_of_unasked unasked, takeWaiting_eq]
  exact (quiet_growRequested f).trans (.of_eq rfl rfl)

/-- How the waiting ids fare in a flush. -/
theorem served_flush (placeable : Placeable accepted f.atlas) (founded : f.atlas.Founded)
    (idle : f.atlas.repack = none) :
    f.Works f.placing.2 ∧ Served f.atlas.side f.adoptReady.atlas.pending.drain.1 f.placing := by
  have adopted : f.adoptReady = f := adoptReady_of_idle idle
  have taken := f.taken_gathered
  obtain ⟨works, slots, _, _⟩ := taken
  unfold placing
  rw [adopted] at works slots ⊢
  have leads := works.leads
  obtain ⟨less, unready⟩ := leads.larger placeable.unready
  have gathered : Placeable accepted f.gathered.atlas := ⟨placeable.queued.leads leads,
    layered_gathered placeable.layered placeable.queued.registry, placeable.holdable.leads leads placeable.queued,
    unready⟩
  have hasData : ∀ id ∈ f.atlas.pending.drain.1, (f.gathered.atlas.slot id).texture.isSome := by
    intro id member
    rw [slot, slots]
    exact founded id (placeable.queued.pending.mem_drain_iff.mp member)
  obtain ⟨_, served⟩ := served_placing gathered (Queue.nodup_drain _).1 hasData
  exact ⟨works.trans (works_placing f.gathered _), served.mono less.1⟩

end Frame

/-- An id that waits for a place. -/
def Homeless (a : Atlas) (id : Nat) : Prop := a.isPending id = true ∧ a.placement? id = none

/-- Places are looked for of all that waits, so what has none afterwards is left of that. -/
theorem homeless_flush_iff {f : Frame} (heeded : Heeded accepted f.atlas) (founded : f.atlas.Founded)
    (idle : f.atlas.repack = none) : f.flush.atlas.Homeless id ↔
      id ∈ f.adoptReady.atlas.pending.drain.1 ∧ (f.placing.2.atlas.slot id).place = none := by
  have place := (f.closes_flush heeded.positive).place id
  have queued : Queued accepted f.adoptReady.atlas := heeded.toQueued.leads f.leads_adoptReady
  rw [queued.pending.mem_drain_iff]
  constructor
  · intro ⟨waits, homeless⟩
    refine ⟨?_, place.symm.trans homeless⟩
    rcases before : f.adoptReady.atlas.isPending id with _ | _
    · cases (Frame.flush_of_idle queued before).2.symm.trans waits
    · exact before
  · intro ⟨waits, unplaced⟩
    have homeless : f.flush.atlas.placement? id = none := place.trans unplaced
    refine ⟨?_, homeless⟩
    have adopted : f.adoptReady = f := Frame.adoptReady_of_idle idle
    rw [adopted] at waits
    have hasTexture : (f.flush.atlas.slot id).texture.isSome := by
      rw [(f.leads_flush.sameData heeded.toQueued id).texture]
      exact founded id waits
    rcases heeded.flush.heeds id hasTexture with ⟨_, placed⟩ | ⟨_, isPending⟩
    · rw [homeless] at placed
      cases placed
    · exact isPending

theorem short_iff_homeless {f : Frame} (heeded : Heeded accepted f.atlas) (placeable : Placeable accepted f.atlas)
    (founded : f.atlas.Founded) (idle : f.atlas.repack = none) :
    f.placing.1 = true ↔ ∃ id, f.flush.atlas.Homeless id := by
  have served := (f.served_flush placeable founded idle).2
  rw [← Bool.not_eq_false, served.placed]
  simp only [not_forall, Option.not_isSome_iff_eq_none, exists_prop]
  exact exists_congr fun id => (homeless_flush_iff heeded founded idle).symm

/-- Out of space is reported just if an id is left without a place. -/
theorem outOfSpace_flush_iff {f : Frame} (heeded : Heeded accepted f.atlas) (placeable : Placeable accepted f.atlas)
    (founded : f.atlas.Founded) (idle : f.atlas.repack = none) (unasked : f.atlas.repackRequest = none)
    (silent : .outOfSpace ∉ f.events) : .outOfSpace ∈ f.flush.events ↔ ∃ id, f.flush.atlas.Homeless id := by
  have quiet : f.Quiet f.placing.2 := (f.quiet_gathered idle unasked).trans (Frame.quiet_placing (false, f.gathered) _)
  have unknown : .outOfSpace ∉ f.placing.2.events := by
    intro known
    rcases quiet.announces _ known with refused | earlier
    · cases refused
    · exact silent earlier
  rw [(f.closes_flush heeded.positive).outOfSpace unknown]
  exact short_iff_homeless heeded placeable founded idle

/-- The image is as large as it can be once an id is left without a place, unless it is the only one, with a texture
that was longer than the image. -/
theorem capacity_of_homeless {f : Frame} (heeded : Heeded accepted f.atlas) (placeable : Placeable accepted f.atlas)
    (founded : f.atlas.Founded) (idle : f.atlas.repack = none) (granted : .deviceOutOfMemory ∉ f.flush.events)
    (homeless : f.flush.atlas.Homeless id) : f.flush.atlas.side = largestSide ∧
      (f.flush.atlas.layers = f.atlas.config.maxLayers ∨
        (∃ t, (f.atlas.slot id).texture = some t ∧ f.atlas.side < f.atlas.extent t ∧ f.atlas.extent t ≤ largestSide) ∧
          ∀ other, f.flush.atlas.Homeless other → other = id) := by
  obtain ⟨works, served⟩ := f.served_flush placeable founded idle
  have closes := f.closes_flush heeded.positive
  have short := (short_iff_homeless heeded placeable founded idle).mpr ⟨id, homeless⟩
  obtain ⟨longest, rest⟩ := served.short short (closes.granted granted)
  refine ⟨(congrArg Capacity.side closes.capacity).trans longest, ?_⟩
  rcases rest with all | ⟨lone, _, ⟨t, texture, long⟩, only⟩
  · rw [works.leads.fixes.config] at all
    exact Or.inl ((congrArg Capacity.layers closes.capacity).trans all)
  · have isLone : ∀ other, f.flush.atlas.Homeless other → other = lone := by
      intro other isHomeless
      obtain ⟨inLine, unplaced⟩ := (homeless_flush_iff heeded founded idle).mp isHomeless
      by_cases same : other = lone
      · exact same
      · have placed := only other inLine same
        rw [unplaced] at placed
        cases placed
    cases isLone id homeless
    rw [(works.leads.sameData heeded.toQueued id).texture] at texture
    rw [works.leads.fixes.extent] at long
    exact Or.inr ⟨⟨t, texture, long, placeable.holdable id t texture⟩, isLone⟩

namespace World

variable {w : World}

theorem holdable_foldl {c : Config} {device : Device} {given : Option Staging}
    (created : Atlas.create c device given = .ok (w.atlas, w.device, w.staging)) (actions : List Action) :
    (actions.foldl step w).atlas.Holdable := by
  apply kept_foldl (heeded_of_create created)
  · obtain ⟨_, _, handle, _, isAtlas⟩ := create_eq_ok_iff.mp created
    rw [isAtlas]
    intro id t texture
    rw [slot_ofImage] at texture
    cases texture
  · exact fun _ _ _ queued call holdable => holdable.call call queued
  · exact fun _ f queued holdable => holdable.leads f.leads_flush queued

/-- If no image is refused and there is no repack, a flush reports out of space just if it leaves an id without a place.
The image has the longest side then. It has all layers too, unless just this id is left, with a texture that was longer
than the image before the flush: growing to the longest side for it adds no layers. -/
theorem outOfSpace_iff_homeless {c : Config} {device : Device} {given : Option Staging}
    (created : Atlas.create c device given = .ok (w.atlas, w.device, w.staging)) (actions : List Action)
    (idle : (actions.foldl step w).atlas.repack = none)
    (unasked : (actions.foldl step w).atlas.repackRequest = none)
    (granted : .deviceOutOfMemory ∉ (actions.foldl step w).frame.flush.events) :
    (.outOfSpace ∈ (actions.foldl step w).frame.flush.events ↔
      ∃ id, ((actions.foldl step w).step .flush).atlas.Homeless id) ∧
    ∀ id, ((actions.foldl step w).step .flush).atlas.Homeless id →
      ((actions.foldl step w).step .flush).atlas.side = largestSide ∧
      (((actions.foldl step w).step .flush).atlas.layers = c.maxLayers ∨
        (∃ t, ((actions.foldl step w).atlas.slot id).texture = some t ∧
          (actions.foldl step w).atlas.side < (actions.foldl step w).atlas.extent t ∧
          (actions.foldl step w).atlas.extent t ≤ largestSide) ∧
        ∀ other, ((actions.foldl step w).step .flush).atlas.Homeless other → other = id) := by
  have config : (actions.foldl step w).atlas.config = c := by
    rw [(endures_foldl (orderly_of_create created) actions).fixes.config]
    obtain ⟨_, _, handle, _, isAtlas⟩ := create_eq_ok_iff.mp created
    rw [isAtlas]
    rfl
  have layered := (layered_of_create created).1.run (orderly_of_create created) actions
  have holdable := holdable_foldl created actions
  have founded := founded_foldl created actions
  obtain ⟨accepted, heeded⟩ := (heeded_of_create created).run actions
  generalize actions.foldl step w = v at *
  have placeable : Placeable accepted v.frame.atlas :=
    ⟨heeded.toQueued, layered, holdable, fun r running => by cases idle.symm.trans running⟩
  refine ⟨outOfSpace_flush_iff heeded placeable founded idle unasked List.not_mem_nil, fun id homeless => ?_⟩
  rw [← config]
  exact capacity_of_homeless heeded placeable founded idle granted homeless

/-- An atlas of up to two layers, without padding, with two ids to hand out. -/
def wide : World where
  atlas := ofImage
    { maxTextureId := 5, maxLayers := 2, padding := 0, maxTextureSize := 4096, stagingBytes := 168 } 4 2 1
  device := ((Device.create 1).createBuffer 160).2.added (.create 1024 1)
  staging := ⟨⟨Array.replicate 168 0⟩, 0⟩
  waiting := []
  accepted := fun _ => none
  flushes := 0

theorem create_wide : Atlas.create
    { maxTextureId := 5, maxLayers := 2, padding := 0, maxTextureSize := 4096, stagingBytes := 168 } (.create 1)
    (some wide.staging) = .ok (wide.atlas, wide.device, wide.staging) :=
  create_of_unlimited rfl (by simp [Staging.size, wide, ByteArray.size, Config.tableBytes, entryBytes]) rfl

/-- Two ids are handed out, and a texel is set for the first. -/
def handing : List Action := [.register, .register, .set 3 1 1 0 ⟨#[200, 100, 50, 255]⟩]

/-- A column of texels as long as the longest side. -/
def column : ByteArray := ⟨Array.replicate 16384 255⟩

/-- The column is set for the second id. -/
def crowding : List Action := handing ++ [.set 4 1 4096 0 column]

theorem set_column : (handing.foldl step wide).atlas.set 4 1 4096 0 column =
    ((handing.foldl step wide).atlas.load 4 (.ofRows 1 4096 4 column), .ok ()) := by
  obtain ⟨notIgnored, inRange, registered, small⟩ : (handing.foldl step wide).atlas.ignores 4 = false ∧
      4 < (handing.foldl step wide).atlas.config.maxTextureId ∧
      ((handing.foldl step wide).atlas.slot 4).isRegistered = true ∧
      sizeError? (handing.foldl step wide).atlas.config 4 1 4096 = none := by decide +kernel
  -- The bytes are counted, but never looked at.
  have size : column.size = 16384 := by simp [column, ByteArray.size]
  have read : textureOf 1 4096 0 column = .ok (.ofRows 1 4096 4 column) := by simp [textureOf, size]
  simp [Atlas.set, check, notIgnored, Nat.not_le.mpr inRange, registered, small, read]

theorem atlas_crowding : (crowding.foldl step wide).atlas =
    (handing.foldl step wide).atlas.load 4 (.ofRows 1 4096 4 column) := by
  rw [crowding, List.foldl_concat, atlas_step_set, set_column]

theorem frame_crowding : (crowding.foldl step wide).frame =
    ⟨(handing.foldl step wide).atlas.load 4 (.ofRows 1 4096 4 column), wide.device, wide.staging, #[], []⟩ := by
  have keeps := step_set_keeps (handing.foldl step wide) 4 1 4096 0 column
  have before := step_set_keeps ((wide.step .register).step .register) 3 1 1 0 ⟨#[200, 100, 50, 255]⟩
  rw [frame, atlas_crowding, crowding, List.foldl_concat, keeps.1, keeps.2.1]
  exact congrArg₂ (fun device staging => Frame.mk _ device staging #[] []) before.1 before.2.1

theorem idle_crowding : (crowding.foldl step wide).atlas.repack = none ∧
    (crowding.foldl step wide).atlas.repackRequest = none := by
  rw [atlas_crowding, ← Option.isNone_iff_eq_none]
  decide +kernel

theorem frame_step_flush (w : World) : (w.step .flush).frame =
    ⟨w.frame.flush.atlas, w.frame.flush.device, w.frame.flush.staging, #[], []⟩ := by
  simp only [step, Atlas.flush, frame]

theorem atlas_step_flush (w : World) : (w.step .flush).atlas = w.frame.flush.atlas := by
  simp only [step, Atlas.flush, frame]

theorem flush_crowding : (crowding.foldl step wide).frame.flush.events = [.outOfSpace] ∧
    ((crowding.foldl step wide).step .flush).atlas.layers = 1 ∧
    ((crowding.foldl step wide).step .flush).atlas.isPending 4 = true ∧
    ((crowding.foldl step wide).step .flush).atlas.placement? 4 = none := by
  rw [atlas_step_flush, frame_crowding]
  decide +kernel

theorem outOfSpace_iff_homeless_crowding : (∃ c device given, Atlas.create c device given =
      .ok (wide.atlas, wide.device, wide.staging) ∧ c.maxLayers = 2) ∧
    (crowding.foldl step wide).atlas.repack = none ∧ (crowding.foldl step wide).atlas.repackRequest = none ∧
    .deviceOutOfMemory ∉ (crowding.foldl step wide).frame.flush.events ∧
    .outOfSpace ∈ (crowding.foldl step wide).frame.flush.events ∧
    (∀ other, ((crowding.foldl step wide).step .flush).atlas.Homeless other ↔ other = 4) := by
  obtain ⟨events, layers, waits, unplaced⟩ := flush_crowding
  obtain ⟨idle, unasked⟩ := idle_crowding
  have granted : .deviceOutOfMemory ∉ (crowding.foldl step wide).frame.flush.events := by
    rw [events]
    decide
  have homeless : ((crowding.foldl step wide).step .flush).atlas.Homeless 4 := ⟨waits, unplaced⟩
  have few : ((crowding.foldl step wide).step .flush).atlas.layers ≠ 2 := by
    rw [layers]
    decide
  obtain ⟨reported, full⟩ := outOfSpace_iff_homeless create_wide crowding idle unasked granted
  obtain ⟨_, rest⟩ := full 4 homeless
  refine ⟨⟨_, _, _, create_wide, rfl⟩, idle, unasked, granted, reported.mpr ⟨4, homeless⟩, fun other => ?_⟩
  refine ⟨(rest.resolve_left few).2 other, fun same => ?_⟩
  rw [same]
  exact homeless

/-- Out of space is reported while another layer could be had, and the next flush finds a place there. -/
theorem not_full_crowding : (∃ c device given, Atlas.create c device given =
      .ok (wide.atlas, wide.device, wide.staging) ∧
      ((crowding.foldl step wide).step .flush).atlas.layers < c.maxLayers) ∧
    (crowding.foldl step wide).atlas.repack = none ∧ (crowding.foldl step wide).atlas.repackRequest = none ∧
    (crowding.foldl step wide).frame.flush.events = [.outOfSpace] ∧
    ((crowding.foldl step wide).step .flush).atlas.Homeless 4 ∧
    (((crowding.foldl step wide).step .flush).step .flush).atlas.placement? 4 = some ⟨0, 0, 1, 4096, 1⟩ := by
  obtain ⟨events, layers, waits, unplaced⟩ := flush_crowding
  obtain ⟨idle, unasked⟩ := idle_crowding
  refine ⟨⟨_, _, _, create_wide, ?_⟩, idle, unasked, events, ⟨waits, unplaced⟩, ?_⟩
  · rw [layers]
    decide
  · rw [atlas_step_flush, frame_step_flush, frame_crowding]
    decide +kernel

end World

end TextureLoom.Atlas
