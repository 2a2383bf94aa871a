import TextureLoom.Atlas.Packing
import TextureLoom.Proofs.Atlas.FreeSpace

set_option autoImplicit false

namespace TextureLoom.Atlas

/-- The place lies in an image of this capacity. -/
structure Placement.Within (p : Placement) (c : Capacity) : Prop where
  columns : p.x + p.width ≤ c.side
  rows : p.y + p.height ≤ c.side
  layer : p.layer < c.layers

/-- The places have no texel in common. -/
def Placement.Apart (p q : Placement) : Prop :=
  p.layer = q.layer → ∀ x y, p.rect.Covers x y → ¬q.rect.Covers x y

theorem Placement.Apart.symm {p q : Placement} (apart : p.Apart q) : q.Apart p :=
  fun same x y inQ inP => apart same.symm x y inP inQ

/-- Capacities by size. -/
def Capacity.Le (small large : Capacity) : Prop := small.side ≤ large.side ∧ small.layers ≤ large.layers

theorem Placement.Within.mono {p : Placement} {small large : Capacity} (within : p.Within small)
    (less : small.Le large) : p.Within large where
  columns := Nat.le_trans within.columns less.1
  rows := Nat.le_trans within.rows less.1
  layer := Nat.lt_of_lt_of_le within.layer less.2

/-- Whether a texel of a layer is free. -/
def FreeAt (bins : List Bin) (layer x y : Nat) : Prop := ∃ bin, bins[layer]? = some bin ∧ bin.Frees x y

/-- Free texels are texels of an image of this capacity. -/
def FreeWithin (bins : List Bin) (c : Capacity) : Prop :=
  ∀ layer x y, FreeAt bins layer x y → layer < c.layers ∧ x < c.side ∧ y < c.side

/-- In empty bins all texels of the layers are free. -/
theorem freeAt_bins {c : Capacity} {layer x y : Nat} :
    FreeAt c.bins layer x y ↔ layer < c.layers ∧ x < c.side ∧ y < c.side := by
  simp only [FreeAt, Capacity.bins, List.getElem?_replicate]
  split
  · simp [Bin.frees_empty, *]
  · simp [*]

theorem freeWithin_bins (c : Capacity) : FreeWithin c.bins c := fun _ _ _ => freeAt_bins.mp

/-- A place of the wanted size on free texels. These are free no more, all others are as before. -/
structure Takes (bins after : List Bin) (place : Placement) (width height : Nat) : Prop where
  length_eq : after.length = bins.length
  width_eq : place.width = width
  height_eq : place.height = height
  width_pos : 0 < width
  height_pos : 0 < height
  free : ∀ x y, place.rect.Covers x y → FreeAt bins place.layer x y
  left : ∀ layer x y, FreeAt after layer x y ↔
    FreeAt bins layer x y ∧ ¬(layer = place.layer ∧ place.rect.Covers x y)
  tidy : (∀ bin ∈ bins, bin.Tidy) → ∀ bin ∈ after, bin.Tidy

@[simp] theorem freeAt_zero {bin : Bin} {rest : List Bin} {x y : Nat} :
    FreeAt (bin :: rest) 0 x y ↔ bin.Frees x y := by
  simp [FreeAt]

@[simp] theorem freeAt_succ {bin : Bin} {rest : List Bin} {layer x y : Nat} :
    FreeAt (bin :: rest) (layer + 1) x y ↔ FreeAt rest layer x y := by
  simp [FreeAt]

theorem takes_of_placeFrom {fit : Fit} {width height first : Nat} {bins after : List Bin} {place : Placement}
    (placed : placeFrom fit width height first bins = some (place, after)) :
    ∃ layer, place.layer = first + layer ∧ Takes bins after { place with layer } width height := by
  induction bins generalizing first place after with
  | nil => cases placed
  | cons bin rest ih =>
    unfold placeFrom at placed
    split at placed
    · rename_i r taken inserted
      cases placed
      obtain ⟨widthEq, heightEq, widthPos, heightPos, free, left, tidy⟩ := Bin.placed_of_insert inserted
      have rect : (⟨r.x, r.y, width, height⟩ : Rect) = r := by rw [← widthEq, ← heightEq]
      refine ⟨0, rfl, rfl, rfl, rfl, widthPos, heightPos, ?_, ?_, ?_⟩
      · intro x y covers
        simp only [Placement.rect, rect] at covers
        exact freeAt_zero.mpr (free x y covers)
      · intro layer x y
        simp only [Placement.rect, rect]
        cases layer with
        | zero => simp [left]
        | succ layer => simp
      · intro allTidy
        simp only [List.forall_mem_cons] at allTidy ⊢
        exact ⟨tidy allTidy.1, allTidy.2⟩
    · obtain ⟨⟨later, others⟩, deeper, same⟩ := Option.map_eq_some_iff.mp placed
      cases same
      obtain ⟨layer, isLayer, takes⟩ := ih deeper
      refine ⟨layer + 1, by omega, congrArg (· + 1) takes.length_eq, takes.width_eq, takes.height_eq, takes.width_pos,
        takes.height_pos, ?_, ?_, ?_⟩
      · intro x y covers
        exact freeAt_succ.mpr (takes.free x y covers)
      · intro other x y
        cases other with
        | zero => simp
        | succ other =>
          have left := takes.left other x y
          simp only [freeAt_succ, Nat.add_right_cancel_iff]
          exact left
      · intro allTidy
        simp only [List.forall_mem_cons] at allTidy ⊢
        exact ⟨allTidy.1, takes.tidy allTidy.2⟩

theorem takes_of_placeFrom_zero {fit : Fit} {width height : Nat} {bins after : List Bin} {place : Placement}
    (placed : placeFrom fit width height 0 bins = some (place, after)) : Takes bins after place width height := by
  obtain ⟨layer, isLayer, takes⟩ := takes_of_placeFrom placed
  rw [Nat.zero_add] at isLayer
  rw [← isLayer] at takes
  exact takes

theorem Takes.freeWithin {bins after : List Bin} {place : Placement} {width height : Nat} {c : Capacity}
    (takes : Takes bins after place width height) (within : FreeWithin bins c) : FreeWithin after c :=
  fun layer x y free => within layer x y ((takes.left layer x y).mp free).1

/-- A place holds texels. -/
theorem Takes.filled {bins after : List Bin} {place : Placement} {width height : Nat}
    (takes : Takes bins after place width height) : place.rect.isEmpty = false := by
  obtain ⟨_, widthEq, heightEq, widthPos, heightPos, _, _, _⟩ := takes
  rw [Rect.isEmpty_eq_false_iff, Placement.rect, widthEq, heightEq]
  exact ⟨widthPos, heightPos⟩

/-- A place on free texels lies in the image. -/
theorem Takes.within {bins after : List Bin} {place : Placement} {width height : Nat} {c : Capacity}
    (takes : Takes bins after place width height) (within : FreeWithin bins c) : place.Within c := by
  obtain ⟨_, widthEq, heightEq, widthPos, heightPos, free, _, _⟩ := takes
  have last : place.rect.Covers (place.x + place.width - 1) (place.y + place.height - 1) := by
    simp only [Rect.Covers, Rect.right, Rect.bottom, Placement.rect]
    omega
  obtain ⟨inLayers, inColumns, inRows⟩ := within _ _ _ (free _ _ last)
  exact ⟨by omega, by omega, inLayers⟩

/-- The places hold texels and lie in an image of this capacity, no two on a common texel. -/
structure PlacesSound (places : Nat → Option Placement) (c : Capacity) : Prop where
  filled : ∀ id place, places id = some place → place.rect.isEmpty = false
  within : ∀ id place, places id = some place → place.Within c
  apart : ∀ id other place otherPlace, id ≠ other → places id = some place → places other = some otherPlace →
    place.Apart otherPlace

theorem PlacesSound.mono {places fewer : Nat → Option Placement} {c larger : Capacity} (sound : PlacesSound places c)
    (less : c.Le larger) (subset : ∀ id place, fewer id = some place → places id = some place) :
    PlacesSound fewer larger where
  filled := fun id place found => sound.filled id place (subset id place found)
  within := fun id place found => (sound.within id place (subset id place found)).mono less
  apart := fun id other place otherPlace distinct found otherFound =>
    sound.apart id other place otherPlace distinct (subset id place found) (subset other otherPlace otherFound)

theorem get?_of_get?_erase {places : Table Nat Placement} {key id : Nat} {place : Placement}
    (found : (places.erase key).get? id = some place) : places.get? id = some place := by
  by_cases same : id = key
  · rw [same, Table.get?_erase_self] at found
    cases found
  · rwa [Table.get?_erase_of_ne places same] at found

/-- The places of items are apart, each on texels that were free. -/
theorem placesSound_of_placeAll {c : Capacity} {bins : List Bin} {items : List Item} {places : Table Nat Placement}
    (within : FreeWithin bins c) (placed : placeAll bins items = some places) :
    PlacesSound places.get? c ∧ ∀ id place, places.get? id = some place →
      ∀ x y, place.rect.Covers x y → FreeAt bins place.layer x y := by
  induction items generalizing bins places with
  | nil =>
    cases placed
    exact ⟨⟨by simp [Table.get?], by simp [Table.get?], by simp [Table.get?]⟩, by simp [Table.get?]⟩
  | cons item rest ih =>
    rw [placeAll] at placed
    obtain ⟨⟨place, after⟩, first, placed⟩ := Option.bind_eq_some_iff.mp placed
    obtain ⟨others, later, same⟩ := Option.bind_eq_some_iff.mp placed
    cases same
    have takes := takes_of_placeFrom_zero first
    obtain ⟨sound, free⟩ := ih (takes.freeWithin within) later
    have apart : ∀ id other, Table.get? others id = some other → place.Apart other := by
      intro id other found sameLayer x y inPlace inOther
      obtain ⟨_, outside⟩ := (takes.left _ x y).mp (free id other found x y inOther)
      exact outside ⟨sameLayer.symm, inPlace⟩
    refine ⟨⟨?_, ?_, ?_⟩, ?_⟩
    · intro id found isPlace
      rw [Table.get?] at isPlace
      split at isPlace
      · cases isPlace
        exact takes.filled
      · exact sound.filled id found isPlace
    · intro id found isPlace
      rw [Table.get?] at isPlace
      split at isPlace
      · cases isPlace
        exact takes.within within
      · exact sound.within id found isPlace
    · intro id other found otherFound distinct isPlace isOther
      rw [Table.get?] at isPlace isOther
      split at isPlace
      · split at isOther
        · omega
        · cases isPlace
          exact apart other otherFound isOther
      · split at isOther
        · cases isOther
          exact (apart id found isPlace).symm
        · exact sound.apart id other found otherFound distinct isPlace isOther
    · intro id found isPlace x y covers
      rw [Table.get?] at isPlace
      split at isPlace
      · cases isPlace
        exact takes.free x y covers
      · exact ((takes.left _ x y).mp (free id found isPlace x y covers)).1

/-- Each item has a place of its size. -/
theorem get?_of_placeAll {bins : List Bin} {items : List Item} {places : Table Nat Placement}
    (placed : placeAll bins items = some places) (distinct : (items.map (·.id)).Nodup) :
    ∀ item ∈ items, ∃ place, places.get? item.id = some place ∧ place.width = item.width ∧
      place.height = item.height := by
  induction items generalizing bins places with
  | nil => simp
  | cons item rest ih =>
    rw [placeAll] at placed
    obtain ⟨⟨place, after⟩, first, placed⟩ := Option.bind_eq_some_iff.mp placed
    obtain ⟨others, later, same⟩ := Option.bind_eq_some_iff.mp placed
    cases same
    rw [List.map_cons, List.nodup_cons] at distinct
    have takes := takes_of_placeFrom_zero first
    intro wanted member
    rcases List.mem_cons.mp member with rfl | inRest
    · exact ⟨place, by rw [Table.get?, if_pos rfl], takes.width_eq, takes.height_eq⟩
    · obtain ⟨found, isPlace, sized⟩ := ih later distinct.2 wanted inRest
      refine ⟨found, ?_, sized⟩
      have other : item.id ≠ wanted.id := by
        intro same
        exact distinct.1 (same ▸ List.mem_map_of_mem inRest)
      rw [Table.get?, if_neg other]
      exact isPlace

/-- A plan for some items places all of them, within its capacity and apart. -/
theorem placesSound_of_planFor? {items : List Item} {c : Capacity} {plan : Plan}
    (planned : planFor? items c = some plan) : plan.capacity = c ∧ PlacesSound plan.places.get? c := by
  obtain ⟨places, placed, rfl⟩ := Option.map_eq_some_iff.mp planned
  exact ⟨rfl, (placesSound_of_placeAll (freeWithin_bins c) placed).1⟩

theorem get?_of_planFor? {items : List Item} {c : Capacity} {plan : Plan} (planned : planFor? items c = some plan)
    (distinct : (items.map (·.id)).Nodup) :
    ∀ item ∈ items, ∃ place, plan.places.get? item.id = some place ∧ place.width = item.width ∧
      place.height = item.height := by
  obtain ⟨places, placed, rfl⟩ := Option.map_eq_some_iff.mp planned
  exact get?_of_placeAll placed distinct

theorem Capacity.Le.refl (c : Capacity) : c.Le c := ⟨Nat.le_refl _, Nat.le_refl _⟩

theorem mem_sidesAbove {side s : Nat} : s ∈ sidesAbove side ↔ s ∈ allowedSides ∧ side < s := by
  simp [sidesAbove]

theorem sidesAbove_pairwise (side : Nat) : (sidesAbove side).Pairwise (· ≤ ·) := by
  have ascending : allowedSides.Pairwise (· ≤ ·) := by decide
  exact ascending.filter _

theorem capacitiesOf_pairwise (side first last : Nat) : (capacitiesOf side first last).Pairwise Capacity.Le := by
  rw [capacitiesOf, List.pairwise_map]
  have ascending : (List.range' first (last + 1 - first)).Pairwise (· ≤ ·) := List.pairwise_le_range' _
  exact ascending.imp fun less => ⟨Nat.le_refl side, less⟩

theorem mem_capacitiesOf {side first last : Nat} {c : Capacity} (member : c ∈ capacitiesOf side first last) :
    c.side = side ∧ first ≤ c.layers := by
  obtain ⟨layers, inRange, rfl⟩ := List.mem_map.mp member
  exact ⟨rfl, (List.mem_range'_1.mp inRange).1⟩

theorem le_largestSide {side : Nat} (allowed : side ∈ allowedSides) : side ≤ largestSide := by
  have longest : ∀ side ∈ allowedSides, side ≤ largestSide := by decide
  exact longest side allowed

theorem pos_of_mem_allowedSides {side : Nat} (allowed : side ∈ allowedSides) : 0 < side := by
  have positive : ∀ side ∈ allowedSides, 0 < side := by decide
  exact positive side allowed

/-- The sides of growth are the present one and allowed ones. -/
theorem side_of_growthSteps {present c : Capacity} {maxLayers width height : Nat}
    (member : c ∈ growthSteps present maxLayers width height) : c.side = present.side ∨ c.side ∈ allowedSides := by
  unfold growthSteps at member
  split at member
  · rcases List.mem_append.mp member with deeper | longer
    · exact Or.inl (mem_capacitiesOf deeper).1
    · obtain ⟨side, above, rfl⟩ := List.mem_map.mp longer
      exact Or.inr (mem_sidesAbove.mp above).1
  · obtain ⟨side, above, rfl⟩ := List.mem_map.mp member
    exact Or.inr (mem_sidesAbove.mp above).1

/-- An image of one capacity may grow to the other. -/
structure Capacity.Grows (small large : Capacity) : Prop where
  larger : small.Le large
  side : large.side = small.side ∨ large.side ∈ allowedSides

theorem Capacity.Grows.allowed {small large : Capacity} (grows : small.Grows large)
    (allowed : small.side ∈ allowedSides) : large.side ∈ allowedSides :=
  grows.side.elim (fun same => same ▸ allowed) fun isAllowed => isAllowed

/-- Each step of growth is at least as large as the one before. -/
theorem growthSteps_pairwise (present : Capacity) (maxLayers width height : Nat) :
    (present :: growthSteps present maxLayers width height).Pairwise Capacity.Le := by
  have longer : ∀ layers, present.layers ≤ layers →
      ((sidesAbove present.side).map fun side => (⟨side, layers⟩ : Capacity)).Pairwise Capacity.Le ∧
        ∀ c ∈ (sidesAbove present.side).map fun side => (⟨side, layers⟩ : Capacity), present.Le c := by
    intro layers more
    refine ⟨?_, ?_⟩
    · rw [List.pairwise_map]
      exact (sidesAbove_pairwise present.side).imp fun less => ⟨less, Nat.le_refl layers⟩
    · intro c member
      obtain ⟨side, above, rfl⟩ := List.mem_map.mp member
      exact ⟨Nat.le_of_lt (mem_sidesAbove.mp above).2, more⟩
  unfold growthSteps
  split
  · obtain ⟨ascending, larger⟩ := longer (max present.layers maxLayers) (Nat.le_max_left _ _)
    refine List.pairwise_cons.mpr ⟨?_, List.pairwise_append.mpr ⟨capacitiesOf_pairwise _ _ _, ascending, ?_⟩⟩
    · intro c member
      rcases List.mem_append.mp member with deeper | inLonger
      · obtain ⟨side, more⟩ := mem_capacitiesOf deeper
        exact ⟨Nat.le_of_eq side.symm, by omega⟩
      · exact larger c inLonger
    · intro c deeper other inLonger
      obtain ⟨layers, inRange, rfl⟩ := List.mem_map.mp deeper
      obtain ⟨side, above, rfl⟩ := List.mem_map.mp inLonger
      have last := (List.mem_range'_1.mp inRange).2
      exact ⟨Nat.le_of_lt (mem_sidesAbove.mp above).2, by simp only; omega⟩
  · obtain ⟨ascending, larger⟩ := longer present.layers (Nat.le_refl _)
    exact List.pairwise_cons.mpr ⟨larger, ascending⟩

/-- An image may grow from each step to all later ones. -/
theorem growthSteps_grows (present : Capacity) (maxLayers width height : Nat) :
    (present :: growthSteps present maxLayers width height).Pairwise Capacity.Grows := by
  have ascending := growthSteps_pairwise present maxLayers width height
  have first := (List.pairwise_cons.mp ascending).1
  refine List.pairwise_cons.mpr ⟨fun c member => ⟨first c member, side_of_growthSteps member⟩, ?_⟩
  refine (List.pairwise_cons.mp ascending).2.imp_of_mem fun {small large} isSmall isLarge larger => ⟨larger, ?_⟩
  refine (side_of_growthSteps isLarge).imp_left fun same => ?_
  exact Nat.le_antisymm (same ▸ (first small isSmall).1) larger.1

end TextureLoom.Atlas
