import TextureLoom.Proofs.Atlas.Heeding

set_option autoImplicit false

namespace TextureLoom.Atlas

variable {a : Atlas} {items : List Item} {bins after more : List Bin} {c : Capacity} {id : Nat}

section More

variable {fit : Fit} {width height : Nat}

/-- A rectangle that has a place has the same one if there are more layers behind. -/
theorem placeFrom_append {layer : Nat} {place : Placement}
    (placed : placeFrom fit width height layer bins = some (place, after)) (more : List Bin) :
    placeFrom fit width height layer (bins ++ more) = some (place, after ++ more) := by
  induction bins generalizing layer place after with
  | nil => cases placed
  | cons bin rest ih =>
    rw [List.cons_append]
    unfold placeFrom at placed ⊢
    cases inserted : bin.insert width height fit with
    | some taken =>
      rw [inserted] at placed
      cases placed
      rfl
    | none =>
      rw [inserted] at placed
      obtain ⟨⟨later, others⟩, deeper, same⟩ := Option.map_eq_some_iff.mp placed
      cases same
      simp only [ih deeper, Option.map_some, List.cons_append]

theorem placeAll_append {places : Table Nat Placement} (placed : placeAll bins items = some places)
    (more : List Bin) : placeAll (bins ++ more) items = some places := by
  induction items generalizing bins places with
  | nil => exact placed
  | cons item rest ih =>
    rw [placeAll] at placed ⊢
    obtain ⟨⟨place, after⟩, first, placed⟩ := Option.bind_eq_some_iff.mp placed
    obtain ⟨others, later, same⟩ := Option.bind_eq_some_iff.mp placed
    simp only [placeFrom_append first more, Option.bind_eq_bind, Option.bind_some, ih later]
    exact same

/-- With more layers the items keep the places that they have with fewer. -/
theorem planFor?_of_le {side fewer more : Nat} {plan : Plan} (planned : planFor? items ⟨side, fewer⟩ = some plan)
    (less : fewer ≤ more) : planFor? items ⟨side, more⟩ = some ⟨⟨side, more⟩, plan.places⟩ := by
  obtain ⟨places, placed, rfl⟩ := Option.map_eq_some_iff.mp planned
  have bins : (⟨side, more⟩ : Capacity).bins =
      (⟨side, fewer⟩ : Capacity).bins ++ List.replicate (more - fewer) (Bin.empty side side) := by
    simp only [Capacity.bins, List.replicate_append_replicate]
    congr 1
    omega
  rw [planFor?, bins, placeAll_append placed, Option.map_some]

end More

/-- The ids that have places are those of the items, in their order. -/
theorem keys_of_placeAll {places : Table Nat Placement} (placed : placeAll bins items = some places) :
    places.keys = items.map (·.id) := by
  induction items generalizing bins places with
  | nil =>
    cases placed
    rfl
  | cons item rest ih =>
    rw [placeAll] at placed
    obtain ⟨⟨place, after⟩, first, placed⟩ := Option.bind_eq_some_iff.mp placed
    obtain ⟨others, later, same⟩ := Option.bind_eq_some_iff.mp placed
    cases same
    rw [Table.keys, List.map_cons, List.map_cons]
    exact congrArg _ (ih later)

/-- A shorter side, or fewer layers of the same side. -/
def Capacity.Below (small large : Capacity) : Prop :=
  small.side < large.side ∨ small.side = large.side ∧ small.layers < large.layers

theorem Capacity.Below.asymm {small large : Capacity} (below : small.Below large) : ¬large.Below small := by
  unfold Capacity.Below at below ⊢
  omega

/-- The search for the tightest image is by side, then by layers. -/
theorem tightest_pairwise (present : Capacity) (maxLayers : Nat) :
    (RepackMode.tightest.capacities present maxLayers).Pairwise Capacity.Below := by
  have ascending : allowedSides.Pairwise (· < ·) := by decide
  simp only [RepackMode.capacities, List.pairwise_flatMap]
  constructor
  · intro side _
    rw [capacitiesOf, List.pairwise_map]
    have layers : (List.range' 1 (maxLayers + 1 - 1)).Pairwise (· < ·) := List.pairwise_lt_range'
    exact layers.imp fun less => Or.inr ⟨rfl, less⟩
  · apply ascending.imp
    intro short long less small isSmall large isLarge
    apply Or.inl
    rw [(mem_capacitiesOf isSmall).1, (mem_capacitiesOf isLarge).1]
    exact less

/-- What comes first in a search leaves out whatever is below it. -/
theorem planFor?_of_below {capacities : List Capacity} {plan : Plan} (ordered : capacities.Pairwise Capacity.Below)
    (found : capacities.findSome? (planFor? items) = some plan) (member : c ∈ capacities)
    (below : c.Below plan.capacity) : planFor? items c = none := by
  obtain ⟨before, chosen, behind, rfl, isPlan, unplanned⟩ := List.findSome?_eq_some_iff.mp found
  rw [(placesSound_of_planFor? isPlan).1] at below
  rcases List.mem_append.mp member with isBefore | isBehind
  · exact unplanned c isBefore
  · have later := (List.pairwise_append.mp ordered).2.1
    rcases List.mem_cons.mp isBehind with rfl | isBehind
    · exact absurd below below.asymm
    · exact absurd ((List.pairwise_cons.mp later).1 c isBehind) below.asymm

/-- No image of a shorter allowed side holds the items with any layers that there may be, and none of the same side
with fewer. -/
structure Tight (items : List Item) (maxLayers : Nat) (c : Capacity) : Prop where
  allowed : c.side ∈ allowedSides
  layers : c.layers ≤ maxLayers
  shorter : ∀ side ∈ allowedSides, side < c.side → ∀ layers ≤ maxLayers, planFor? items ⟨side, layers⟩ = none
  fewer : ∀ layers < c.layers, planFor? items ⟨c.side, layers⟩ = none

theorem planFor?_zero (nonempty : items ≠ []) (side : Nat) : planFor? items ⟨side, 0⟩ = none := by
  cases items with
  | nil => exact absurd rfl nonempty
  | cons item rest => rfl

theorem tight_of_findSome? {present : Capacity} {maxLayers : Nat} {plan : Plan} (nonempty : items ≠ [])
    (found : (RepackMode.tightest.capacities present maxLayers).findSome? (planFor? items) = some plan) :
    Tight items maxLayers plan.capacity := by
  obtain ⟨chosen, member, isPlan⟩ := List.exists_of_findSome?_eq_some found
  have same : plan.capacity = chosen := (placesSound_of_planFor? isPlan).1
  obtain ⟨side, allowed, inLayers⟩ := List.mem_flatMap.mp member
  obtain ⟨layers, inRange, rfl⟩ := List.mem_map.mp inLayers
  rw [List.mem_range'_1] at inRange
  -- Images without layers are not tried, and hold nothing.
  have none : ∀ side ∈ allowedSides, ∀ layers ≤ maxLayers, (⟨side, layers⟩ : Capacity).Below plan.capacity →
      planFor? items ⟨side, layers⟩ = none := by
    intro side allowed layers most below
    by_cases empty : layers = 0
    · subst empty
      exact planFor?_zero nonempty side
    · apply planFor?_of_below (tightest_pairwise present maxLayers) found _ below
      apply List.mem_flatMap.mpr
      refine ⟨side, allowed, List.mem_map.mpr ⟨layers, ?_, rfl⟩⟩
      rw [List.mem_range'_1]
      omega
  rw [same] at none ⊢
  have most : layers ≤ maxLayers := by omega
  refine ⟨allowed, most, ?_, ?_⟩
  · intro shorter isAllowed less layers most
    exact none shorter isAllowed layers most (Or.inl less)
  · intro fewer less
    exact none side allowed fewer (Nat.le_trans (Nat.le_of_lt less) most) (Or.inr ⟨rfl, less⟩)

/-- The places of a plan for an atlas: just the ids in use with data have one, each a single one of its padded size, in
an image of this capacity and apart from all others. -/
structure Plans (a : Atlas) (places : Table Nat Placement) (c : Capacity) : Prop where
  once : places.keys.Nodup
  planned : ∀ id, id ∈ places.keys ↔ (a.slot id).isRegistered = true ∧ (a.slot id).texture.isSome
  fits : ∀ id t p, (a.slot id).texture = some t → places.get? id = some p → p.Fits t a.config.padding
  sound : PlacesSound places.get? c

theorem mem_ids_repackItems : id ∈ a.repackItems.map (·.id) ↔ (a.slot id).texture.isSome := by
  constructor
  · intro member
    obtain ⟨item, isItem, rfl⟩ := List.mem_map.mp member
    rw [repackItems, List.mem_mergeSort] at isItem
    obtain ⟨other, _, isOther⟩ := List.mem_filterMap.mp isItem
    obtain ⟨t, texture, rfl⟩ := Option.map_eq_some_iff.mp isOther
    show (a.slot other).texture.isSome
    rw [texture]
    rfl
  · intro hasTexture
    obtain ⟨t, texture⟩ := Option.isSome_iff_exists.mp hasTexture
    exact List.mem_map.mpr ⟨_, mem_repackItems texture, rfl⟩

theorem plans_of_planFor? {accepted : Nat → Option PixelBuffer} {plan : Plan} (queued : Queued accepted a)
    (isPlan : planFor? a.repackItems c = some plan) : Plans a plan.places c := by
  have keys : plan.places.keys = a.repackItems.map (·.id) := by
    obtain ⟨places, placed, rfl⟩ := Option.map_eq_some_iff.mp isPlan
    exact keys_of_placeAll placed
  refine ⟨?_, ?_, ?_, (placesSound_of_planFor? isPlan).2⟩
  · rw [keys]
    exact nodup_repackItems a
  · intro id
    rw [keys, mem_ids_repackItems]
    refine ⟨fun hasTexture => ⟨?_, hasTexture⟩, fun both => both.2⟩
    obtain ⟨t, texture⟩ := Option.isSome_iff_exists.mp hasTexture
    exact (queued.lt_of_texture texture).1
  · intro id t p texture placed
    obtain ⟨q, isPlace, width, height⟩ := get?_of_planFor? isPlan (nodup_repackItems a) _ (mem_repackItems texture)
    cases isPlace.symm.trans placed
    exact ⟨width, height⟩

namespace World

variable {w : World}

/-- What a flush starts a repack from. -/
def onset (w : World) : Frame := w.frame.adoptReady

/-- In each state of a run in which a repack starts, its plan gives all ids in use with data, and no others, places of
their own; the tightest one is for an image than which none that is tried is smaller. A plan for some layers of any side
is one for more of them. -/
theorem plans_of_startRepack {c : Config} {device : Device} {given : Option Staging}
    (created : Atlas.create c device given = .ok (w.atlas, w.device, w.staging)) (actions : List Action)
    (idle : (actions.foldl step w).onset.atlas.repack = none) (mode : RepackMode) {r : Repack}
    (starts : ((actions.foldl step w).onset.startRepack mode).atlas.repack = some r) :
    let a := (actions.foldl step w).onset.atlas
    Plans a r.places r.image.capacity ∧
    planFor? a.repackItems r.image.capacity = some ⟨r.image.capacity, r.places⟩ ∧
    (mode = .tightest → Tight a.repackItems a.config.maxLayers r.image.capacity) ∧
    ∀ items side fewer more plan, planFor? items ⟨side, fewer⟩ = some plan → fewer ≤ more →
      planFor? items ⟨side, more⟩ = some ⟨⟨side, more⟩, plan.places⟩ := by
  intro a
  obtain ⟨accepted, heeded⟩ := (heeded_of_create created).run actions
  have queued : Queued accepted a := heeded.toQueued.leads (Frame.leads_adoptReady _)
  obtain ⟨_, _, same | ⟨nonempty, plan, handle, found, begins⟩⟩ := (actions.foldl step w).onset.startRepack_cases mode
  · rw [same, idle] at starts
    cases starts
  · cases begins.symm.trans starts
    obtain ⟨chosen, _, isPlan⟩ := List.exists_of_findSome?_eq_some found
    obtain ⟨rfl, _⟩ := placesSound_of_planFor? isPlan
    refine ⟨plans_of_planFor? queued isPlan, isPlan, ?_, ?_⟩
    · rintro rfl
      exact tight_of_findSome? nonempty found
    · intro items side fewer more plan planned less
      exact planFor?_of_le planned less

/-- A texture is set that with its padding is wider than the image. -/
def broadening : List Action := [.register, .set 2 1023 1 0 ⟨Array.replicate 4092 255⟩]

theorem broadening_starts : (broadening.foldl step sample).onset.atlas.repack.isNone ∧
    ((broadening.foldl step sample).onset.startRepack .tightest).atlas.repack.map (·.image.capacity) =
      some ⟨2048, 1⟩ ∧
    (broadening.foldl step sample).onset.atlas.status? 2 = some .pendingUpload ∧
    ((broadening.foldl step sample).onset.atlas.slot 2).texture.isSome ∧
    1 ≤ (broadening.foldl step sample).onset.atlas.config.maxLayers := by
  decide +kernel

theorem plans_of_startRepack_broadening :
    (∃ c device given, Atlas.create c device given = .ok (sample.atlas, sample.device, sample.staging)) ∧
    (broadening.foldl step sample).onset.atlas.repack = none ∧
    ∃ r, ((broadening.foldl step sample).onset.startRepack .tightest).atlas.repack = some r ∧
      r.image.capacity = ⟨2048, 1⟩ ∧ 2 ∈ r.places.keys ∧
      planFor? (broadening.foldl step sample).onset.atlas.repackItems ⟨1024, 1⟩ = none := by
  obtain ⟨isIdle, started, waits, texture, most⟩ := broadening_starts
  have idle := Option.isNone_iff_eq_none.mp isIdle
  obtain ⟨r, starts, capacity⟩ := Option.map_eq_some_iff.mp started
  obtain ⟨c, device, given, _, created, _⟩ := starts_sample
  obtain ⟨plans, _, tight, _⟩ := plans_of_startRepack created broadening idle .tightest starts
  refine ⟨⟨c, device, given, created⟩, idle, r, starts, capacity, (plans.planned 2).mpr ⟨?_, texture⟩, ?_⟩
  · rw [Slot.isRegistered, status_of_status? waits]
    rfl
  · have isTight := tight rfl
    rw [capacity] at isTight
    exact isTight.shorter 1024 (by decide) (by decide) 1 most

end World

end TextureLoom.Atlas
