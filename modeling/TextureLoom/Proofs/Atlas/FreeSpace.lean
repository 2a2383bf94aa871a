import TextureLoom.Atlas.Bin

set_option autoImplicit false

namespace TextureLoom.Atlas

/-- Whether a texel is in one of some rectangles. -/
def CoveredBy (rects : List Rect) (x y : Nat) : Prop := ∃ r ∈ rects, r.Covers x y

@[simp] theorem coveredBy_nil {x y : Nat} : ¬CoveredBy [] x y := by simp [CoveredBy]

theorem coveredBy_cons {r : Rect} {rest : List Rect} {x y : Nat} :
    CoveredBy (r :: rest) x y ↔ r.Covers x y ∨ CoveredBy rest x y := by
  simp [CoveredBy]

theorem CoveredBy.mono {rects larger : List Rect} {x y : Nat} (covered : CoveredBy rects x y)
    (subset : ∀ r ∈ rects, r ∈ larger) : CoveredBy larger x y := by
  obtain ⟨r, member, covers⟩ := covered
  exact ⟨r, subset r member, covers⟩

theorem coveredBy_append {rects others : List Rect} {x y : Nat} :
    CoveredBy (rects ++ others) x y ↔ CoveredBy rects x y ∨ CoveredBy others x y := by
  simp only [CoveredBy, List.mem_append, or_and_right, exists_or]

theorem coveredBy_ite {condition : Prop} [Decidable condition] {r : Rect} {x y : Nat} :
    CoveredBy (if condition then [r] else []) x y ↔ condition ∧ r.Covers x y := by
  split <;> simp [coveredBy_cons, *]

namespace Rect

/-- The rectangles have no texel in common. -/
def Apart (r other : Rect) : Prop := ∀ x y, r.Covers x y → ¬other.Covers x y

theorem Apart.symm {r other : Rect} (apart : r.Apart other) : other.Apart r :=
  fun x y inOther inR => apart x y inR inOther

theorem isEmpty_eq_false_iff {r : Rect} : r.isEmpty = false ↔ 0 < r.width ∧ 0 < r.height := by
  simp only [isEmpty, Bool.or_eq_false_iff, beq_eq_false_iff_ne]
  omega

/-- An empty rectangle holds no texel. -/
theorem isEmpty_eq_false_of_covers {r : Rect} {x y : Nat} (covers : r.Covers x y) : r.isEmpty = false := by
  simp only [Covers, right, bottom] at covers
  exact isEmpty_eq_false_iff.mpr (by omega)

theorem covers_of_isEmpty_eq_false {r : Rect} (filled : r.isEmpty = false) : r.Covers r.x r.y := by
  have sides := isEmpty_eq_false_iff.mp filled
  simp only [Covers, right, bottom]
  omega

theorem covers_of_contains {r other : Rect} {x y : Nat} (contains : r.contains other = true)
    (covers : other.Covers x y) : r.Covers x y := by
  simp only [Rect.contains, Bool.and_eq_true, decide_eq_true_eq] at contains
  simp only [Covers] at *
  omega

theorem intersects_iff {r other : Rect} :
    r.intersects other = true ↔ other.x < r.right ∧ r.x < other.right ∧ other.y < r.bottom ∧ r.y < other.bottom := by
  simp only [intersects, Bool.not_eq_true', Bool.or_eq_false_iff, decide_eq_false_iff_not, Nat.not_le]
  omega

/-- What is left around a rectangle is all but what the rectangle holds. -/
theorem coveredBy_minus {r used : Rect} {x y : Nat} :
    CoveredBy (r.minus used) x y ↔ r.Covers x y ∧ ¬used.Covers x y := by
  unfold minus
  split
  · rename_i meet
    rw [intersects_iff] at meet
    simp only [coveredBy_append, coveredBy_ite]
    simp only [Covers, right, bottom] at *
    omega
  · rename_i outside
    rw [intersects_iff] at outside
    simp only [coveredBy_cons, coveredBy_nil, or_false, Covers, right, bottom] at *
    omega

/-- What is left around a rectangle are parts without a common texel. -/
theorem minus_pairwise (r used : Rect) : (r.minus used).Pairwise Apart := by
  have single : ∀ (condition : Prop) [Decidable condition] (part : Rect),
      (if condition then [part] else []).Pairwise Apart := by
    intro condition _ part
    split <;> simp
  unfold minus
  split
  · simp only [List.pairwise_append, single, true_and, List.mem_append, List.mem_ite_nil_right, List.mem_singleton]
    refine ⟨⟨?_, ?_⟩, ?_⟩
    · rintro first ⟨_, rfl⟩ second ⟨_, rfl⟩ x y inFirst inSecond
      simp only [Covers, right, bottom] at *
      omega
    · rintro first (⟨_, rfl⟩ | ⟨_, rfl⟩) second ⟨_, rfl⟩ x y inFirst inSecond <;>
      · simp only [Covers, right, bottom] at *
        omega
    · rintro first ((⟨_, rfl⟩ | ⟨_, rfl⟩) | ⟨_, rfl⟩) second ⟨_, rfl⟩ x y inFirst inSecond <;>
      · simp only [Covers, right, bottom] at *
        omega
  · simp

/-- A union holds what one of the two rectangles holds. -/
theorem covers_join? {a b union : Rect} {x y : Nat} (joined : a.join? b = some union) :
    union.Covers x y ↔ a.Covers x y ∨ b.Covers x y := by
  unfold join? at joined
  repeat' split at joined
  all_goals
    cases joined
    try
      simp only [Covers, right, bottom] at *
      omega

end Rect

/-- Rectangles that hold texels, and no texel in common. -/
structure Tidy (rects : List Rect) : Prop where
  filled : ∀ r ∈ rects, r.isEmpty = false
  apart : rects.Pairwise Rect.Apart

theorem tidy_cons {r : Rect} {rest : List Rect} :
    Tidy (r :: rest) ↔ r.isEmpty = false ∧ (∀ x y, r.Covers x y → ¬CoveredBy rest x y) ∧ Tidy rest := by
  constructor
  · rintro ⟨filled, apart⟩
    rw [List.pairwise_cons] at apart
    refine ⟨filled r List.mem_cons_self, ?_, fun other member => filled other (List.mem_cons_of_mem r member), apart.2⟩
    rintro x y inR ⟨other, member, inOther⟩
    exact apart.1 other member x y inR inOther
  · rintro ⟨filled, outside, tidy⟩
    refine ⟨?_, List.pairwise_cons.mpr ⟨?_, tidy.apart⟩⟩
    · intro other member
      rcases List.mem_cons.mp member with rfl | inRest
      · exact filled
      · exact tidy.filled other inRest
    · exact fun other member x y inR inOther => outside x y inR ⟨other, member, inOther⟩

theorem Tidy.sublist {rects fewer : List Rect} (tidy : Tidy rects) (sublist : fewer.Sublist rects) : Tidy fewer where
  filled := fun r member => tidy.filled r (sublist.subset member)
  apart := tidy.apart.sublist sublist

theorem Tidy.perm {rects others : List Rect} (tidy : Tidy rects) (perm : rects.Perm others) : Tidy others where
  filled := fun r member => tidy.filled r (perm.mem_iff.mpr member)
  apart := tidy.apart.perm perm Rect.Apart.symm

namespace Bin

theorem absorb_sublist (a : Rect) (rects : List Rect) : (absorb a rects).2.Sublist rects := by
  induction rects with
  | nil => exact List.Sublist.refl []
  | cons b rest ih =>
    unfold absorb
    split
    · exact ih.cons b
    · split
      · exact List.Sublist.refl _
      · exact ih.cons_cons b

theorem prune_sublist (rects : List Rect) : (prune rects).Sublist rects := by
  induction rects using prune.induct with
  | case1 => simp only [prune, List.Sublist.refl]
  | case2 a rest stays ih =>
    rw [prune, if_pos stays]
    exact (ih.trans (absorb_sublist a rest)).cons_cons a
  | case3 a rest goes ih =>
    rw [prune, if_neg goes]
    exact (ih.trans (absorb_sublist a rest)).cons a

theorem coveredBy_absorb {a : Rect} {rects : List Rect} {x y : Nat} :
    a.Covers x y ∨ CoveredBy (absorb a rects).2 x y ↔ a.Covers x y ∨ CoveredBy rects x y := by
  induction rects with
  | nil => exact Iff.rfl
  | cons b rest ih =>
    unfold absorb
    split
    · rename_i inA
      rw [ih, coveredBy_cons, ← or_assoc, or_iff_left_of_imp (Rect.covers_of_contains inA)]
    · split
      · exact Iff.rfl
      · rw [coveredBy_cons, coveredBy_cons, or_left_comm, ih, or_left_comm]

/-- A rectangle that goes lies in one that stays. -/
theorem coveredBy_of_absorb {a : Rect} {rects : List Rect} {x y : Nat} (goes : (absorb a rects).1 = false)
    (covers : a.Covers x y) : CoveredBy (absorb a rects).2 x y := by
  induction rects with
  | nil => cases goes
  | cons b rest ih =>
    unfold absorb at goes ⊢
    split at goes
    · rename_i inA
      rw [if_pos inA]
      exact ih goes
    · rename_i notInA
      rw [if_neg notInA]
      split at goes
      · rename_i holdsA
        rw [if_pos holdsA]
        exact coveredBy_cons.mpr (Or.inl (Rect.covers_of_contains holdsA covers))
      · rename_i notHoldsA
        rw [if_neg notHoldsA]
        exact coveredBy_cons.mpr (Or.inr (ih goes))

/-- A rectangle is dropped only if another one holds all its texels. -/
theorem coveredBy_prune {rects : List Rect} {x y : Nat} : CoveredBy (prune rects) x y ↔ CoveredBy rects x y := by
  induction rects using prune.induct with
  | case1 => rw [prune]
  | case2 a rest stays ih => rw [prune, if_pos stays, coveredBy_cons, coveredBy_cons, ih, coveredBy_absorb]
  | case3 a rest goes ih =>
    rw [prune, if_neg goes, ih, coveredBy_cons, ← coveredBy_absorb]
    exact ⟨Or.inr, fun covered => covered.elim (coveredBy_of_absorb (Bool.eq_false_iff.mpr goes)) id⟩

theorem coveredBy_joinInto {a union : Rect} {rects others : List Rect} {x y : Nat}
    (joined : joinInto a rects = some (union, others)) :
    CoveredBy (union :: others) x y ↔ CoveredBy (a :: rects) x y := by
  induction rects generalizing others with
  | nil => cases joined
  | cons b rest ih =>
    unfold joinInto at joined
    simp only [coveredBy_cons] at ih ⊢
    split at joined
    · rename_i isUnion
      cases joined
      rw [Rect.covers_join? isUnion, or_assoc]
    · obtain ⟨⟨found, tail⟩, deeper, same⟩ := Option.map_eq_some_iff.mp joined
      cases same
      rw [coveredBy_cons, or_left_comm, ih deeper, or_left_comm]

theorem Tidy.joinInto {a union : Rect} {rects others : List Rect} (tidy : Tidy (a :: rects))
    (joined : Bin.joinInto a rects = some (union, others)) : Tidy (union :: others) := by
  induction rects generalizing others with
  | nil => cases joined
  | cons b rest ih =>
    unfold Bin.joinInto at joined
    split at joined
    · rename_i isUnion
      cases joined
      obtain ⟨filledA, outsideA, tidyB⟩ := tidy_cons.mp tidy
      obtain ⟨_, outsideB, tidyRest⟩ := tidy_cons.mp tidyB
      refine tidy_cons.mpr ⟨?_, ?_, tidyRest⟩
      · have inA := Rect.covers_of_isEmpty_eq_false filledA
        exact Rect.isEmpty_eq_false_of_covers ((Rect.covers_join? isUnion).mpr (Or.inl inA))
      · intro x y inUnion inRest
        rcases (Rect.covers_join? isUnion).mp inUnion with inA | inB
        · exact outsideA x y inA (coveredBy_cons.mpr (Or.inr inRest))
        · exact outsideB x y inB inRest
    · obtain ⟨⟨found, tail⟩, deeper, same⟩ := Option.map_eq_some_iff.mp joined
      cases same
      -- `b` goes in front: it stays apart from the union as the union and the rest hold what `a` and the rest did.
      obtain ⟨filledB, outsideB, tidyRest⟩ := tidy_cons.mp (tidy.perm (List.Perm.swap b a rest))
      have front : Tidy (b :: union :: tail) := by
        refine tidy_cons.mpr ⟨filledB, ?_, ih tidyRest deeper⟩
        intro x y inB
        rw [coveredBy_joinInto deeper]
        exact outsideB x y inB
      exact front.perm (List.Perm.swap union b tail)

theorem coveredBy_joinOnce {rects joined : List Rect} {x y : Nat} (once : joinOnce rects = some joined) :
    CoveredBy joined x y ↔ CoveredBy rects x y := by
  induction rects generalizing joined with
  | nil => cases once
  | cons a rest ih =>
    unfold joinOnce at once
    split at once
    · rename_i found
      cases once
      exact coveredBy_joinInto found
    · obtain ⟨tail, later, same⟩ := Option.map_eq_some_iff.mp once
      subst same
      rw [coveredBy_cons, coveredBy_cons, ih later]

theorem Tidy.joinOnce {rects joined : List Rect} (tidy : Tidy rects) (once : Bin.joinOnce rects = some joined) :
    Tidy joined := by
  induction rects generalizing joined with
  | nil => cases once
  | cons a rest ih =>
    unfold Bin.joinOnce at once
    split at once
    · rename_i found
      cases once
      exact Tidy.joinInto tidy found
    · obtain ⟨tail, later, same⟩ := Option.map_eq_some_iff.mp once
      subst same
      obtain ⟨filled, outside, tidyRest⟩ := tidy_cons.mp tidy
      refine tidy_cons.mpr ⟨filled, ?_, ih tidyRest later⟩
      intro x y inA
      rw [coveredBy_joinOnce later]
      exact outside x y inA

/-- What joining once keeps is kept by joining all. -/
theorem joinAll_induction {motive : List Rect → Prop} {rects : List Rect} (start : motive rects)
    (step : ∀ rects joined, joinOnce rects = some joined → motive rects → motive joined) : motive (joinAll rects) := by
  induction rects using joinAll.induct with
  | case1 rects none =>
    rw [joinAll]
    split
    · exact start
    · simp_all
  | case2 rects joined once shorter ih =>
    rw [joinAll]
    split
    · simp_all
    · rename_i found
      rw [once] at found
      cases found
      exact ih (step rects joined once start)

theorem coveredBy_joinAll {rects : List Rect} {x y : Nat} : CoveredBy (joinAll rects) x y ↔ CoveredBy rects x y :=
  joinAll_induction (motive := fun joined => CoveredBy joined x y ↔ CoveredBy rects x y) Iff.rfl
    fun _ _ once same => (coveredBy_joinOnce once).trans same

/-- Whether a texel of the bin is free. -/
def Frees (b : Bin) (x y : Nat) : Prop := CoveredBy b.free x y

theorem frees_empty {width height x y : Nat} : (empty width height).Frees x y ↔ x < width ∧ y < height := by
  simp [Frees, CoveredBy, empty, Rect.Covers, Rect.right, Rect.bottom]

/-- Texels that are taken are free no more, all others are as before. -/
theorem frees_occupy {b : Bin} {used : Rect} {x y : Nat} :
    (b.occupy used).Frees x y ↔ b.Frees x y ∧ ¬used.Covers x y := by
  have parts : CoveredBy (b.free.flatMap (·.minus used)) x y ↔ b.Frees x y ∧ ¬used.Covers x y := by
    simp only [CoveredBy, List.mem_flatMap]
    constructor
    · rintro ⟨part, ⟨r, inFree, isPart⟩, covers⟩
      obtain ⟨inR, notUsed⟩ := Rect.coveredBy_minus.mp ⟨part, isPart, covers⟩
      exact ⟨⟨r, inFree, inR⟩, notUsed⟩
    · rintro ⟨⟨r, inFree, inR⟩, notUsed⟩
      obtain ⟨part, isPart, covers⟩ := Rect.coveredBy_minus.mpr ⟨inR, notUsed⟩
      exact ⟨part, ⟨r, inFree, isPart⟩, covers⟩
  have filled : ∀ rects : List Rect, CoveredBy (rects.filter fun r => !r.isEmpty) x y ↔ CoveredBy rects x y := by
    intro rects
    refine ⟨fun covered => covered.mono fun r member => (List.mem_filter.mp member).1, ?_⟩
    rintro ⟨r, member, covers⟩
    exact ⟨r, List.mem_filter.mpr ⟨member, by simp [Rect.isEmpty_eq_false_of_covers covers]⟩, covers⟩
  rw [← parts, ← filled, Frees, occupy, coveredBy_prune]

/-- Texels that are given back are free again, all others are as before. -/
theorem frees_release {b : Bin} {r : Rect} {x y : Nat} :
    (b.release r).Frees x y ↔ b.Frees x y ∨ r.Covers x y := by
  rw [Frees, release, coveredBy_prune, coveredBy_joinAll, coveredBy_append, coveredBy_cons]
  simp [Frees]

/-- The free rectangles hold texels, and no texel in common. -/
def Tidy (b : Bin) : Prop := Atlas.Tidy b.free

theorem tidy_empty {width height : Nat} (columns : 0 < width) (rows : 0 < height) : (empty width height).Tidy where
  filled := by simpa [empty, Rect.isEmpty_eq_false_iff] using ⟨columns, rows⟩
  apart := List.pairwise_singleton _ _

theorem Tidy.occupy {b : Bin} (tidy : b.Tidy) (used : Rect) : (b.occupy used).Tidy := by
  have parts : Atlas.Tidy ((b.free.flatMap (·.minus used)).filter fun r => !r.isEmpty) := by
    refine ⟨fun r member => by simpa using (List.mem_filter.mp member).2, List.Pairwise.filter _ ?_⟩
    refine List.pairwise_flatMap.mpr ⟨fun r _ => r.minus_pairwise used, tidy.apart.imp ?_⟩
    intro r other apart part isPart otherPart isOther x y inPart inOther
    have inR := (Rect.coveredBy_minus.mp ⟨part, isPart, inPart⟩).1
    exact apart x y inR (Rect.coveredBy_minus.mp ⟨otherPart, isOther, inOther⟩).1
  exact parts.sublist (prune_sublist _)

/-- A rectangle of texels that are not free can be given back. -/
theorem Tidy.release {b : Bin} {r : Rect} (tidy : b.Tidy) (filled : r.isEmpty = false)
    (taken : ∀ x y, r.Covers x y → ¬b.Frees x y) : (b.release r).Tidy := by
  have front : Atlas.Tidy (r :: b.free) := tidy_cons.mpr ⟨filled, taken, tidy⟩
  have joined : Atlas.Tidy (joinAll (b.free ++ [r])) :=
    joinAll_induction (front.perm (List.perm_append_singleton r b.free).symm) fun _ _ once before =>
      Tidy.joinOnce before once
  exact joined.sublist (prune_sublist _)

/-- A choice that changes, at each element, to an element that passes the test or not at all ends with one that
passes. -/
theorem foldl_chooses {α : Type} (passes : Rect → Prop) (choose : Option (Rect × α) → Rect → Option (Rect × α))
    (keeps : ∀ best r, choose best r = best ∨ passes r ∧ ∃ score, choose best r = some (r, score)) (rects : List Rect)
    (best : Option (Rect × α)) {r : Rect} {score : α} (chosen : rects.foldl choose best = some (r, score)) :
    best = some (r, score) ∨ r ∈ rects ∧ passes r := by
  induction rects generalizing best with
  | nil => exact Or.inl chosen
  | cons first rest ih =>
    rw [List.foldl_cons] at chosen
    rcases ih _ chosen with earlier | ⟨member, passed⟩
    · rcases keeps best first with same | ⟨passed, firstScore, isFirst⟩
      · exact Or.inl (same ▸ earlier)
      · rw [isFirst] at earlier
        cases earlier
        exact Or.inr ⟨List.mem_cons_self, passed⟩
    · exact Or.inr ⟨List.mem_cons_of_mem first member, passed⟩

/-- The free rectangle that is chosen is one of the list and large enough. -/
theorem mem_of_bestFree? {fit : Fit} {width height : Nat} {free : List Rect} {r : Rect}
    (found : bestFree? fit width height free = some r) : r ∈ free ∧ width ≤ r.width ∧ height ≤ r.height := by
  obtain ⟨⟨chosen, score⟩, best, rfl⟩ := Option.map_eq_some_iff.mp found
  have member : none = some (chosen, score) ∨ chosen ∈ free ∧ width ≤ chosen.width ∧ height ≤ chosen.height := by
    refine foldl_chooses (fun r => width ≤ r.width ∧ height ≤ r.height) _ (fun best r => ?_) free none best
    by_cases small : r.width < width ∨ r.height < height
    · exact Or.inl (if_pos small)
    · have large : width ≤ r.width ∧ height ≤ r.height := by omega
      rw [if_neg small]
      rcases best with _ | ⟨earlier, bestScore⟩
      · exact Or.inr ⟨large, _, rfl⟩
      · by_cases better : isBetter (fit.leftover r width height) bestScore
        · exact Or.inr ⟨large, _, if_pos better⟩
        · exact Or.inl (if_neg better)
  rcases member with absurd | member
  · cases absurd
  · exact member

/-- A placed rectangle has its size and takes only free texels. These are free no more, all others are as before. -/
structure Placed (b after : Bin) (placed : Rect) (width height : Nat) : Prop where
  width_eq : placed.width = width
  height_eq : placed.height = height
  width_pos : 0 < width
  height_pos : 0 < height
  free : ∀ x y, placed.Covers x y → b.Frees x y
  left : ∀ x y, after.Frees x y ↔ b.Frees x y ∧ ¬placed.Covers x y
  tidy : b.Tidy → after.Tidy

theorem placed_of_insert {b after : Bin} {width height : Nat} {fit : Fit} {placed : Rect}
    (inserted : b.insert width height fit = some (placed, after)) : Placed b after placed width height := by
  unfold insert at inserted
  split at inserted
  · cases inserted
  · obtain ⟨r, chosen, same⟩ := Option.map_eq_some_iff.mp inserted
    cases same
    obtain ⟨member, wide, high⟩ := mem_of_bestFree? chosen
    refine ⟨rfl, rfl, by omega, by omega, ?_, fun x y => frees_occupy, fun tidy => tidy.occupy _⟩
    intro x y covers
    refine ⟨r, member, ?_⟩
    simp only [Rect.Covers, Rect.right, Rect.bottom] at covers ⊢
    omega

end Bin

end TextureLoom.Atlas
