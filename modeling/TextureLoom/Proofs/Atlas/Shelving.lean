import Mathlib.Algebra.GroupWithZero.Nat
import Mathlib.Order.Interval.Finset.Nat
import Mathlib.Data.Finset.Prod
import TextureLoom.Proofs.Atlas.FreeSpace

set_option autoImplicit false

namespace TextureLoom.Atlas

/-- A bin and the rectangles that are taken in it. -/
structure Shelf where
  bin : Bin
  taken : List Rect
deriving DecidableEq, Repr

/-- A call to a bin. -/
inductive Move where
  | insert (width height : Nat) (fit : Fit)
  | occupy (r : Rect)
  | release (r : Rect)
deriving DecidableEq, Repr

namespace Shelf

def empty (width height : Nat) : Shelf := ⟨Bin.empty width height, []⟩

def step (s : Shelf) : Move → Shelf
  | .insert width height fit =>
    match s.bin.insert width height fit with
    | none => s
    | some (placed, bin) => ⟨bin, placed :: s.taken⟩
  | .occupy r => ⟨s.bin.occupy r, r :: s.taken⟩
  | .release r => ⟨s.bin.release r, s.taken.erase r⟩

/-- A rectangle that is occupied holds texels, all of them texels of the bin and none of them taken; one that is
released was taken. -/
def Allows (s : Shelf) : Move → Prop
  | .insert _ _ _ => True
  | .occupy r =>
    r.isEmpty = false ∧ (r.right ≤ s.bin.width ∧ r.bottom ≤ s.bin.height) ∧ ∀ other ∈ s.taken, r.Apart other
  | .release r => r ∈ s.taken

/-- The calls, one after the other, lead from one shelf to another. -/
inductive Run : Shelf → List Move → Shelf → Prop where
  | done (s : Shelf) : Run s [] s
  | more {s last : Shelf} {move : Move} {rest : List Move} :
      s.Allows move → Run (s.step move) rest last → Run s (move :: rest) last

end Shelf

namespace Rect

variable {r : Rect} {x y : Nat}

def area (r : Rect) : Nat := r.width * r.height

def texels (r : Rect) : Finset (Nat × Nat) := Finset.Ico r.x r.right ×ˢ Finset.Ico r.y r.bottom

theorem mem_texels : (x, y) ∈ r.texels ↔ r.Covers x y := by
  simp only [texels, Finset.mem_product, Finset.mem_Ico, Covers, and_assoc]

theorem card_texels (r : Rect) : r.texels.card = r.area := by
  rw [texels, Finset.card_product, Nat.card_Ico, Nat.card_Ico, right, bottom, Nat.add_sub_cancel_left,
    Nat.add_sub_cancel_left, area]

/-- The last texel of a rectangle tells how far it goes. -/
theorem covers_last (filled : r.isEmpty = false) : r.Covers (r.right - 1) (r.bottom - 1) := by
  have sides := isEmpty_eq_false_iff.mp filled
  simp only [Covers, right, bottom]
  omega

end Rect

namespace Bin

variable {b after : Bin} {placed : Rect} {width height : Nat} {fit : Fit}

theorem Placed.filled (isPlaced : Placed b after placed width height) : placed.isEmpty = false := by
  rw [Rect.isEmpty_eq_false_iff, isPlaced.width_eq, isPlaced.height_eq]
  exact ⟨isPlaced.width_pos, isPlaced.height_pos⟩

theorem sizes_of_insert (inserted : b.insert width height fit = some (placed, after)) :
    after.width = b.width ∧ after.height = b.height := by
  unfold insert at inserted
  split at inserted
  · cases inserted
  · obtain ⟨r, _, same⟩ := Option.map_eq_some_iff.mp inserted
    cases same
    exact ⟨rfl, rfl⟩

end Bin

/-- The texels of some rectangles. -/
def texelsOf (rects : List Rect) : Finset (Nat × Nat) := rects.foldr (fun r texels => r.texels ∪ texels) ∅

theorem mem_texelsOf {rects : List Rect} {x y : Nat} : (x, y) ∈ texelsOf rects ↔ CoveredBy rects x y := by
  induction rects with
  | nil => simp [texelsOf]
  | cons r rest ih =>
    rw [coveredBy_cons, ← ih, ← Rect.mem_texels]
    exact Finset.mem_union

/-- Rectangles without a common texel have as many texels as their areas say. -/
theorem card_texelsOf {rects : List Rect} (apart : rects.Pairwise Rect.Apart) :
    (texelsOf rects).card = (rects.map Rect.area).sum := by
  induction rects with
  | nil => rfl
  | cons r rest ih =>
    rw [List.pairwise_cons] at apart
    have disjoint : Disjoint r.texels (texelsOf rest) := by
      refine Finset.disjoint_left.mpr ?_
      rintro ⟨x, y⟩ inR inRest
      obtain ⟨other, member, inOther⟩ := mem_texelsOf.mp inRest
      exact apart.1 other member x y (Rect.mem_texels.mp inR) inOther
    calc (texelsOf (r :: rest)).card
        = r.texels.card + (texelsOf rest).card := Finset.card_union_of_disjoint disjoint
      _ = r.area + (rest.map Rect.area).sum := by rw [Rect.card_texels, ih apart.2]
      _ = ((r :: rest).map Rect.area).sum := by rw [List.map_cons, List.sum_cons]

/-- The rectangles other than one of them hold what all hold but that one. -/
theorem Tidy.coveredBy_erase {rects : List Rect} {r : Rect} {x y : Nat} (tidy : Tidy rects) (member : r ∈ rects) :
    CoveredBy (rects.erase r) x y ↔ CoveredBy rects x y ∧ ¬r.Covers x y := by
  have perm := List.perm_cons_erase member
  obtain ⟨_, outside, _⟩ := tidy_cons.mp (tidy.perm perm)
  have same : CoveredBy rects x y ↔ CoveredBy (r :: rects.erase r) x y := by
    simp only [CoveredBy, perm.mem_iff]
  rw [same, coveredBy_cons]
  constructor
  · exact fun inOthers => ⟨Or.inr inOthers, fun inR => outside x y inR inOthers⟩
  · rintro ⟨inR | inOthers, notInR⟩
    · exact absurd inR notInR
    · exact inOthers

namespace Shelf

/-- Each texel of the bin is free or taken. A bin without texels is as it was created: there is nothing to take. -/
structure Exact (width height : Nat) (s : Shelf) : Prop where
  width_eq : s.bin.width = width
  height_eq : s.bin.height = height
  free : ∀ x y, s.bin.Frees x y ↔ (x < width ∧ y < height) ∧ ¬CoveredBy s.taken x y
  inside : ∀ r ∈ s.taken, r.right ≤ width ∧ r.bottom ≤ height
  taken : Tidy s.taken
  tidy : 0 < width → 0 < height → s.bin.Tidy
  bare : width = 0 ∨ height = 0 → s = empty width height

variable {width height : Nat} {s : Shelf}

theorem exact_empty (width height : Nat) : Exact width height (empty width height) where
  width_eq := rfl
  height_eq := rfl
  free := fun _ _ => Bin.frees_empty.trans (iff_self_and.mpr fun _ => coveredBy_nil)
  inside := fun _ member => absurd member List.not_mem_nil
  taken := ⟨fun _ member => absurd member List.not_mem_nil, List.Pairwise.nil⟩
  tidy := Bin.tidy_empty
  bare := fun _ => rfl

namespace Exact

/-- A rectangle that holds texels lies in the bin if its texels do. -/
theorem within {r : Rect} (filled : r.isEmpty = false) (texels : ∀ x y, r.Covers x y → x < width ∧ y < height) :
    r.right ≤ width ∧ r.bottom ≤ height := by
  have last := texels _ _ (Rect.covers_last filled)
  omega

/-- A rectangle that holds texels lies only in a bin that does. -/
theorem wide {r : Rect} (filled : r.isEmpty = false)
    (inside : r.right ≤ width ∧ r.bottom ≤ height) : 0 < width ∧ 0 < height := by
  have sides := Rect.isEmpty_eq_false_iff.mp filled
  simp only [Rect.right, Rect.bottom] at inside
  omega

/-- A rectangle of free texels is taken, and all others stay as they are. -/
theorem take (exact : Exact width height s) {r : Rect} {after : Bin} (filled : r.isEmpty = false)
    (free : ∀ x y, r.Covers x y → s.bin.Frees x y) (sizes : after.width = s.bin.width ∧ after.height = s.bin.height)
    (left : ∀ x y, after.Frees x y ↔ s.bin.Frees x y ∧ ¬r.Covers x y) (tidy : s.bin.Tidy → after.Tidy) :
    Exact width height ⟨after, r :: s.taken⟩ := by
  have inside : r.right ≤ width ∧ r.bottom ≤ height :=
    within filled fun x y covers => ((exact.free x y).mp (free x y covers)).1
  have wide := wide filled inside
  refine ⟨sizes.1.trans exact.width_eq, sizes.2.trans exact.height_eq, ?_, ?_, ?_, ?_, ?_⟩
  · intro x y
    rw [left, exact.free, coveredBy_cons, not_or, and_assoc, and_comm (a := ¬r.Covers x y)]
  · intro other member
    rcases List.mem_cons.mp member with rfl | before
    · exact inside
    · exact exact.inside other before
  · exact tidy_cons.mpr ⟨filled, fun x y covers => ((exact.free x y).mp (free x y covers)).2, exact.taken⟩
  · exact fun columns rows => tidy (exact.tidy columns rows)
  · intro bare
    omega

theorem insert (exact : Exact width height s) (columns rows : Nat) (fit : Fit) :
    Exact width height (s.step (.insert columns rows fit)) := by
  simp only [step]
  rcases inserted : s.bin.insert columns rows fit with _ | ⟨placed, after⟩
  · exact exact
  · have isPlaced := Bin.placed_of_insert inserted
    exact exact.take isPlaced.filled isPlaced.free (Bin.sizes_of_insert inserted) isPlaced.left isPlaced.tidy

theorem occupy (exact : Exact width height s) {r : Rect} (allowed : s.Allows (.occupy r)) :
    Exact width height (s.step (.occupy r)) := by
  obtain ⟨filled, inside, apart⟩ := allowed
  refine exact.take filled ?_ ⟨rfl, rfl⟩ (fun _ _ => Bin.frees_occupy) (·.occupy r)
  intro x y covers
  rw [exact.free]
  refine ⟨?_, fun ⟨other, member, inOther⟩ => apart other member x y covers inOther⟩
  rw [exact.width_eq, exact.height_eq] at inside
  simp only [Rect.Covers] at covers
  omega

theorem release (exact : Exact width height s) {r : Rect} (allowed : s.Allows (.release r)) :
    Exact width height (s.step (.release r)) := by
  have member : r ∈ s.taken := allowed
  have filled := exact.taken.filled r member
  have inside := exact.inside r member
  have wide := wide filled inside
  refine ⟨exact.width_eq, exact.height_eq, ?_, ?_, ?_, ?_, ?_⟩
  · intro x y
    have inBin : r.Covers x y → x < width ∧ y < height := by
      simp only [Rect.Covers]
      omega
    have outside := exact.taken.coveredBy_erase member (x := x) (y := y)
    simp only [step, Bin.frees_release, exact.free, outside]
    tauto
  · exact fun other inOthers => exact.inside other (List.mem_of_mem_erase inOthers)
  · exact exact.taken.sublist List.erase_sublist
  · intro columns rows
    refine (exact.tidy columns rows).release filled ?_
    intro x y covers frees
    exact ((exact.free x y).mp frees).2 ⟨r, member, covers⟩
  · intro bare
    omega

theorem step (exact : Exact width height s) {move : Move} (allowed : s.Allows move) :
    Exact width height (s.step move) := by
  cases move with
  | insert columns rows fit => exact exact.insert columns rows fit
  | occupy r => exact exact.occupy allowed
  | release r => exact exact.release allowed

theorem run (exact : Exact width height s) {moves : List Move} {last : Shelf} (run : Run s moves last) :
    Exact width height last := by
  induction run with
  | done s => exact exact
  | more allowed _ ih => exact ih (exact.step allowed)

theorem apart (exact : Exact width height s) : s.bin.free.Pairwise Rect.Apart := by
  rcases Nat.eq_zero_or_pos width with none | columns
  · rw [exact.bare (Or.inl none)]
    exact List.pairwise_singleton _ _
  rcases Nat.eq_zero_or_pos height with none | rows
  · rw [exact.bare (Or.inr none)]
    exact List.pairwise_singleton _ _
  exact (exact.tidy columns rows).apart

theorem free_inside (exact : Exact width height s) {r : Rect} (member : r ∈ s.bin.free) :
    r.right ≤ width ∧ r.bottom ≤ height := by
  by_cases bare : width = 0 ∨ height = 0
  · rw [exact.bare bare] at member
    cases List.mem_singleton.mp member
    simp only [Rect.right, Rect.bottom]
    omega
  · have filled := (exact.tidy (by omega) (by omega)).filled r member
    exact within filled fun x y covers => ((exact.free x y).mp ⟨r, member, covers⟩).1

/-- The free and the taken rectangles together have the area of the bin. -/
theorem area (exact : Exact width height s) :
    (s.bin.free.map Rect.area).sum + (s.taken.map Rect.area).sum = width * height := by
  have apart : (s.bin.free ++ s.taken).Pairwise Rect.Apart := by
    refine List.pairwise_append.mpr ⟨exact.apart, exact.taken.apart, ?_⟩
    intro r inFree other isTaken x y inR inOther
    exact ((exact.free x y).mp ⟨r, inFree, inR⟩).2 ⟨other, isTaken, inOther⟩
  have all : texelsOf (s.bin.free ++ s.taken) = (⟨0, 0, width, height⟩ : Rect).texels := by
    ext ⟨x, y⟩
    have inTaken : CoveredBy s.taken x y → x < width ∧ y < height := by
      rintro ⟨r, member, covers⟩
      have inside := exact.inside r member
      simp only [Rect.Covers] at covers
      omega
    have inBin : (⟨0, 0, width, height⟩ : Rect).Covers x y ↔ x < width ∧ y < height := by
      simp [Rect.Covers, Rect.right, Rect.bottom]
    rw [mem_texelsOf, coveredBy_append, Rect.mem_texels, inBin]
    have frees := exact.free x y
    simp only [Bin.Frees] at frees
    tauto
  calc (s.bin.free.map Rect.area).sum + (s.taken.map Rect.area).sum
      = ((s.bin.free ++ s.taken).map Rect.area).sum := by rw [List.map_append, List.sum_append]
    _ = (texelsOf (s.bin.free ++ s.taken)).card := (card_texelsOf apart).symm
    _ = width * height := by rw [all, Rect.card_texels]; rfl

end Exact

/-- However a bin is filled and emptied, its free rectangles are apart and inside it, and have just the texels that no
taken rectangle has; in a bin with texels each of them has some. So a rectangle that is placed has its size, lies in
the bin and is apart from the taken ones, and the areas of the free and of the taken rectangles add up to that of the
bin. -/
theorem exact_of_run {moves : List Move} (run : Run (empty width height) moves s) :
    (0 < width → 0 < height → ∀ r ∈ s.bin.free, r.isEmpty = false) ∧
    s.bin.free.Pairwise Rect.Apart ∧
    (∀ r ∈ s.bin.free, r.right ≤ width ∧ r.bottom ≤ height) ∧
    (∀ x y, x < width → y < height → (CoveredBy s.bin.free x y ↔ ¬CoveredBy s.taken x y)) ∧
    (∀ columns rows fit placed after, s.bin.insert columns rows fit = some (placed, after) →
      placed.width = columns ∧ placed.height = rows ∧ placed.right ≤ width ∧ placed.bottom ≤ height ∧
        ∀ other ∈ s.taken, placed.Apart other) ∧
    (s.bin.free.map Rect.area).sum + (s.taken.map Rect.area).sum = width * height := by
  have exact := (exact_empty width height).run run
  refine ⟨fun columns rows => (exact.tidy columns rows).filled, exact.apart, fun r => exact.free_inside, ?_, ?_,
    exact.area⟩
  · intro x y columns rows
    exact (exact.free x y).trans (and_iff_right ⟨columns, rows⟩)
  · intro columns rows fit placed after inserted
    have isPlaced := Bin.placed_of_insert inserted
    have inside := Exact.within isPlaced.filled fun x y covers => ((exact.free x y).mp (isPlaced.free x y covers)).1
    refine ⟨isPlaced.width_eq, isPlaced.height_eq, inside.1, inside.2, ?_⟩
    intro other member x y inPlaced inOther
    exact ((exact.free x y).mp (isPlaced.free x y inPlaced)).2 ⟨other, member, inOther⟩

/-- Two tiles are placed beside one that is put where it was, and the first of them leaves. -/
def moving : List Move :=
  [.insert 2 2 .bestArea, .occupy ⟨2, 1, 2, 2⟩, .insert 2 1 .bestShortSide, .release ⟨0, 0, 2, 2⟩]

theorem run_moving : Run (empty 4 4) moving (moving.foldl step (empty 4 4)) := by
  have first : ((empty 4 4).step (.insert 2 2 .bestArea)).taken = [⟨0, 0, 2, 2⟩] := by decide +kernel
  refine .more trivial (.more ⟨by decide, by decide +kernel, ?_⟩ (.more trivial (.more ?_ (.done _))))
  · rw [first]
    intro other member x y
    cases List.mem_singleton.mp member
    simp only [Rect.Covers, Rect.right, Rect.bottom]
    omega
  · show _ ∈ Shelf.taken _
    decide +kernel

theorem exact_moving : Run (empty 4 4) moving (moving.foldl step (empty 4 4)) ∧
    (moving.foldl step (empty 4 4)).taken = [⟨0, 2, 2, 1⟩, ⟨2, 1, 2, 2⟩] ∧
    (((moving.foldl step (empty 4 4)).bin.free.map Rect.area).sum +
      ((moving.foldl step (empty 4 4)).taken.map Rect.area).sum = 16) ∧
    (moving.foldl step (empty 4 4)).bin.free.Pairwise Rect.Apart := by
  have exact := exact_of_run run_moving
  exact ⟨run_moving, by decide +kernel, exact.2.2.2.2.2, exact.2.1⟩

/-- A bin without texels has a free rectangle that holds none. -/
theorem free_isEmpty_bare : ¬∀ width height moves s, Run (empty width height) moves s →
    ∀ r ∈ s.bin.free, r.isEmpty = false := by
  intro filled
  have bare := filled 0 5 [] (empty 0 5) (.done _) ⟨0, 0, 0, 5⟩ List.mem_cons_self
  exact absurd bare (by decide)

end Shelf

end TextureLoom.Atlas
