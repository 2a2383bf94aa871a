import TextureLoom.Atlas.Basic
import TextureLoom.Proofs.Atlas.Places

set_option autoImplicit false

namespace TextureLoom.Atlas

/-- Whether a place holds a texel of a layer. -/
def Taken (places : Nat → Option Placement) (layer x y : Nat) : Prop :=
  ∃ id place, places id = some place ∧ layer = place.layer ∧ place.rect.Covers x y

theorem not_taken_iff {places : Nat → Option Placement} {layer x y : Nat} :
    ¬Taken places layer x y ↔
      ∀ id place, places id = some place → ¬(layer = place.layer ∧ place.rect.Covers x y) := by
  simp only [Taken, not_exists, not_and]

/-- The places lie apart in an image of this capacity. It has a bin for each layer, and the free rectangles of the bin
hold just the texels of the layer that no place holds, each of them once. -/
structure Packed (places : Nat → Option Placement) (bins : List Bin) (c : Capacity) : Prop where
  sound : PlacesSound places c
  length_eq : bins.length = c.layers
  tidy : ∀ bin ∈ bins, bin.Tidy
  free : ∀ layer x y, FreeAt bins layer x y ↔
    (layer < c.layers ∧ x < c.side ∧ y < c.side) ∧ ¬Taken places layer x y

/-- A bin for each layer, in which nothing is placed. -/
theorem packed_bins {places : Nat → Option Placement} {c : Capacity} (positive : 0 < c.side)
    (none : ∀ id, places id = none) : Packed places c.bins c where
  sound := ⟨by simp [none], by simp [none], by simp [none]⟩
  length_eq := List.length_replicate
  tidy := by
    intro bin member
    cases List.eq_of_mem_replicate member
    exact Bin.tidy_empty positive positive
  free := by
    intro layer x y
    simp [freeAt_bins, not_taken_iff, none]

namespace Packed

variable {places changed : Nat → Option Placement} {bins after : List Bin} {c : Capacity}

theorem freeWithin (packed : Packed places bins c) : FreeWithin bins c :=
  fun layer x y free => ((packed.free layer x y).mp free).1

/-- A place on free texels is apart from all others. -/
theorem add (packed : Packed places bins c) {id width height : Nat} {place : Placement}
    (takes : Takes bins after place width height)
    (adds : ∀ other found, changed other = some found ↔
      other = id ∧ found = place ∨ other ≠ id ∧ places other = some found)
    (unplaced : places id = none) : Packed changed after c := by
  have apart : ∀ other found, places other = some found → place.Apart found := by
    intro other found isPlaced sameLayer x y inPlace inFound
    have free := (packed.free _ x y).mp (takes.free x y inPlace)
    exact free.2 ⟨other, found, isPlaced, sameLayer, inFound⟩
  have taken : ∀ layer x y, Taken changed layer x y ↔
      (layer = place.layer ∧ place.rect.Covers x y) ∨ Taken places layer x y := by
    intro layer x y
    constructor
    · rintro ⟨other, found, isPlaced, holds⟩
      rcases (adds other found).mp isPlaced with ⟨_, rfl⟩ | ⟨_, before⟩
      · exact Or.inl holds
      · exact Or.inr ⟨other, found, before, holds⟩
    · rintro (holds | ⟨other, found, before, holds⟩)
      · exact ⟨id, place, (adds id place).mpr (Or.inl ⟨rfl, rfl⟩), holds⟩
      · have distinct : other ≠ id := by
          rintro rfl
          cases unplaced.symm.trans before
        exact ⟨other, found, (adds other found).mpr (Or.inr ⟨distinct, before⟩), holds⟩
  refine ⟨⟨?_, ?_, ?_⟩, takes.length_eq.trans packed.length_eq, takes.tidy packed.tidy, ?_⟩
  · intro other found isPlaced
    rcases (adds other found).mp isPlaced with ⟨_, rfl⟩ | ⟨_, before⟩
    · exact takes.filled
    · exact packed.sound.filled other found before
  · intro other found isPlaced
    rcases (adds other found).mp isPlaced with ⟨_, rfl⟩ | ⟨_, before⟩
    · exact takes.within packed.freeWithin
    · exact packed.sound.within other found before
  · intro first second firstPlace secondPlace distinct isFirst isSecond
    rcases (adds first firstPlace).mp isFirst with ⟨rfl, rfl⟩ | ⟨_, firstBefore⟩
    · rcases (adds second secondPlace).mp isSecond with ⟨rfl, _⟩ | ⟨_, secondBefore⟩
      · exact absurd rfl distinct
      · exact apart second secondPlace secondBefore
    · rcases (adds second secondPlace).mp isSecond with ⟨_, rfl⟩ | ⟨_, secondBefore⟩
      · exact (apart first firstPlace firstBefore).symm
      · exact packed.sound.apart first second firstPlace secondPlace distinct firstBefore secondBefore
  · intro layer x y
    rw [takes.left, packed.free, taken, not_or, and_assoc, and_comm (a := ¬Taken places layer x y)]

theorem tidy_modify {change : Bin → Bin} {index : Nat} (tidy : ∀ bin ∈ bins, bin.Tidy)
    (changes : ∀ bin, bins[index]? = some bin → bin.Tidy → (change bin).Tidy) :
    ∀ bin ∈ bins.modify index change, bin.Tidy := by
  intro bin member
  obtain ⟨layer, found⟩ := List.mem_iff_getElem?.mp member
  rw [List.getElem?_modify] at found
  obtain ⟨old, isOld, rfl⟩ := Option.map_eq_some_iff.mp found
  have before := tidy old (List.mem_of_getElem? isOld)
  split
  · rename_i same
    subst same
    exact changes old isOld before
  · exact before

theorem freeAt_modify_release {place : Placement} {layer x y : Nat} :
    FreeAt (bins.modify place.layer (·.release place.rect)) layer x y ↔
      FreeAt bins layer x y ∨ layer < bins.length ∧ layer = place.layer ∧ place.rect.Covers x y := by
  simp only [FreeAt, List.getElem?_modify]
  by_cases inBins : layer < bins.length
  · rw [List.getElem?_eq_getElem inBins]
    by_cases same : place.layer = layer
    · simp [same, inBins, Bin.frees_release]
    · simp [same, Ne.symm same]
  · simp [inBins]

theorem freeAt_modify_occupy {place : Placement} {layer x y : Nat} :
    FreeAt (bins.modify place.layer (·.occupy place.rect)) layer x y ↔
      FreeAt bins layer x y ∧ ¬(layer = place.layer ∧ place.rect.Covers x y) := by
  simp only [FreeAt, List.getElem?_modify]
  by_cases same : place.layer = layer
  · cases bins[layer]? <;> simp [same, Bin.frees_occupy]
  · simp [same, Ne.symm same]

/-- The texels of a place that is given back are free again, those of all others stay taken. -/
theorem release (packed : Packed places bins c) {id : Nat} {place : Placement} (placed : places id = some place)
    (removes : ∀ other found, changed other = some found ↔ other ≠ id ∧ places other = some found) :
    Packed changed (bins.modify place.layer (·.release place.rect)) c := by
  have within := packed.sound.within id place placed
  have inside : ∀ layer x y, layer = place.layer ∧ place.rect.Covers x y →
      layer < c.layers ∧ x < c.side ∧ y < c.side := by
    rintro layer x y ⟨rfl, covers⟩
    obtain ⟨columns, rows, inLayers⟩ := within
    simp only [Rect.Covers, Rect.right, Rect.bottom, Placement.rect] at covers
    exact ⟨inLayers, by omega, by omega⟩
  have before : ∀ layer x y, Taken places layer x y ↔
      (layer = place.layer ∧ place.rect.Covers x y) ∨ Taken changed layer x y := by
    intro layer x y
    constructor
    · rintro ⟨other, found, isPlaced, holds⟩
      by_cases same : other = id
      · subst same
        cases placed.symm.trans isPlaced
        exact Or.inl holds
      · exact Or.inr ⟨other, found, (removes other found).mpr ⟨same, isPlaced⟩, holds⟩
    · rintro (holds | ⟨other, found, stays, holds⟩)
      · exact ⟨id, place, placed, holds⟩
      · exact ⟨other, found, ((removes other found).mp stays).2, holds⟩
  have apart : ∀ layer x y, layer = place.layer ∧ place.rect.Covers x y → ¬Taken changed layer x y := by
    rintro layer x y ⟨sameLayer, inPlace⟩ ⟨other, found, stays, isLayer, inFound⟩
    obtain ⟨distinct, isPlaced⟩ := (removes other found).mp stays
    exact packed.sound.apart id other place found distinct.symm placed isPlaced (sameLayer.symm.trans isLayer) x y
      inPlace inFound
  refine ⟨packed.sound.mono (Capacity.Le.refl c) fun other found isPlaced => ((removes other found).mp isPlaced).2,
    (List.length_modify _ _ _).trans packed.length_eq, ?_, ?_⟩
  · refine tidy_modify packed.tidy fun bin found tidy => ?_
    refine tidy.release (packed.sound.filled id place placed) fun x y covers frees => ?_
    have free := (packed.free _ x y).mp ⟨bin, found, frees⟩
    exact free.2 ⟨id, place, placed, rfl, covers⟩
  · intro layer x y
    rw [freeAt_modify_release, packed.free, before, packed.length_eq]
    -- A texel of the place was taken by it alone; of all others neither side changes.
    by_cases given : layer = place.layer ∧ place.rect.Covers x y
    · have isInside := inside layer x y given
      exact iff_of_true (Or.inr ⟨isInside.1, given⟩) ⟨isInside, apart layer x y given⟩
    · simp [given]

theorem tidy_occupySlot {s : Slot} (tidy : ∀ bin ∈ bins, bin.Tidy) : ∀ bin ∈ occupySlot bins s, bin.Tidy := by
  unfold occupySlot
  split
  · exact tidy_modify tidy fun _ _ before => before.occupy _
  · exact tidy

theorem freeAt_occupySlot {s : Slot} {layer x y : Nat} :
    FreeAt (occupySlot bins s) layer x y ↔
      FreeAt bins layer x y ∧ ∀ place, s.place = some place → ¬(layer = place.layer ∧ place.rect.Covers x y) := by
  unfold occupySlot
  split
  · rename_i place isPlace
    simp [freeAt_modify_occupy, isPlace]
  · rename_i none
    simp [none]

theorem freeAt_foldl_occupySlot (slots : List Slot) {bins : List Bin} {layer x y : Nat} :
    FreeAt (slots.foldl occupySlot bins) layer x y ↔
      FreeAt bins layer x y ∧
        ∀ s ∈ slots, ∀ place, s.place = some place → ¬(layer = place.layer ∧ place.rect.Covers x y) := by
  induction slots generalizing bins with
  | nil => simp
  | cons s rest ih => rw [List.foldl_cons, ih, freeAt_occupySlot, List.forall_mem_cons, and_assoc]

/-- The bins that the places of all slots leave. -/
theorem rebuild {slots : Array Slot} (positive : 0 < c.side)
    (sound : PlacesSound (fun id => (slots.getD id {}).place) c) :
    Packed (fun id => (slots.getD id {}).place) (slots.foldl occupySlot c.bins) c := by
  have kept : ∀ slots : List Slot, (slots.foldl occupySlot c.bins).length = c.layers ∧
      ∀ bin ∈ slots.foldl occupySlot c.bins, bin.Tidy := by
    intro slots
    refine List.foldlRecOn (motive := fun bins => bins.length = c.layers ∧ ∀ bin ∈ bins, bin.Tidy) slots occupySlot
      ⟨List.length_replicate, ?_⟩ fun bins before s _ => ⟨?_, tidy_occupySlot before.2⟩
    · intro bin member
      cases List.eq_of_mem_replicate member
      exact Bin.tidy_empty positive positive
    · rw [← before.1]
      unfold occupySlot
      split
      · exact List.length_modify _ _ _
      · rfl
  rw [← Array.foldl_toList]
  refine ⟨sound, (kept _).1, (kept _).2, ?_⟩
  intro layer x y
  rw [freeAt_foldl_occupySlot, freeAt_bins, not_taken_iff]
  refine and_congr_right fun _ => ⟨fun outside id place isPlaced => ?_, fun outside s member => ?_⟩
  · have member : slots.getD id {} ∈ slots.toList := by
      by_cases bound : id < slots.size
      · simp [Array.getD, bound]
      · simp [Array.getD, bound] at isPlaced
    exact outside _ member place isPlaced
  · obtain ⟨id, bound, rfl⟩ := List.mem_iff_getElem.mp member
    have atId : slots.getD id {} = slots.toList[id] := by
      rw [Array.length_toList] at bound
      simp [Array.getD, bound]
    exact atId ▸ outside id

end Packed

end TextureLoom.Atlas
