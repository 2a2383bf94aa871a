import Mathlib.GroupTheory.SpecificGroups.Dihedral
import Mathlib.Tactic.IntervalCases
import TextureLoom.Proofs.Image.Pixels

set_option autoImplicit false

namespace TextureLoom.Image

/-- Where an orientation finds a pixel: column and row may trade places, then columns may be counted from the right and
rows from the bottom. -/
structure Scan where
  swaps : Bool
  fromRight : Bool
  fromBottom : Bool
deriving DecidableEq

namespace Scan

/-- The orientation of an index modulo 8. -/
def ofIndex (index : Nat) : Scan :=
  match index % 8 with
  | 0 => ⟨false, false, false⟩
  | 1 => ⟨true, false, true⟩
  | 2 => ⟨false, true, true⟩
  | 3 => ⟨true, true, false⟩
  | 4 => ⟨false, true, false⟩
  | 5 => ⟨true, true, true⟩
  | 6 => ⟨false, false, true⟩
  | _ => ⟨true, false, false⟩

/-- One orientation behind another, whose columns are the rows of the image if it swaps them. -/
def andThen (o p : Scan) : Scan where
  swaps := o.swaps ^^ p.swaps
  fromRight := o.fromRight ^^ if o.swaps then p.fromBottom else p.fromRight
  fromBottom := o.fromBottom ^^ if o.swaps then p.fromRight else p.fromBottom

/-- The place `i` of `length` in a row, counted from the other end if `reversed`. -/
def count (reversed : Bool) (length i : Nat) : Nat := if reversed then length - 1 - i else i

theorem count_lt {length i : Nat} (reversed : Bool) (inside : i < length) : count reversed length i < length := by
  unfold count
  split <;> omega

theorem count_count {length i : Nat} (first second : Bool) (inside : i < length) :
    count first length (count second length i) = count (first ^^ second) length i := by
  cases first <;> cases second <;> simp only [count, Bool.xor_false, Bool.xor_true, Bool.not_false, Bool.not_true,
    Bool.false_eq_true, ↓reduceIte]
  omega

end Scan

open Scan

/-- The image in an orientation. -/
def turn (img : Image) (o : Scan) : Image :=
  tabulate (if o.swaps then img.height else img.width) (if o.swaps then img.width else img.height) fun x y =>
    img.get (count o.fromRight img.width (if o.swaps then y else x))
      (count o.fromBottom img.height (if o.swaps then x else y))

variable {img : Image}

theorem orient_eq_turn (wellFormed : img.WellFormed) (index : Nat) : img.orient index = img.turn (ofIndex index) := by
  have columns := wellFormed.width_pos
  have rows := wellFormed.height_pos
  have small : index % 8 < 8 := Nat.mod_lt index (by decide)
  unfold orient ofIndex
  simp only [Nat.ne_of_gt columns, Nat.ne_of_gt rows, or_false]
  generalize index % 8 = kind at small
  interval_cases kind
  · exact (tabulate_get wellFormed.size_eq).symm
  all_goals rfl

theorem turn_turn (img : Image) (o p : Scan) : (img.turn o).turn p = img.turn (o.andThen p) := by
  obtain ⟨swaps, right, bottom⟩ := o
  obtain ⟨swapsToo, rightToo, bottomToo⟩ := p
  cases swaps <;> cases swapsToo
  all_goals
    refine tabulate_congr ?_
    intro x column y row
    simp only [turn, width_tabulate, height_tabulate, Bool.false_eq_true, ↓reduceIte] at column row ⊢
    rw [get_tabulate (count_lt _ ‹_›) (count_lt _ ‹_›), count_count _ _ ‹_›, count_count _ _ ‹_›]
    rfl

theorem width_turn (img : Image) (o : Scan) :
    (img.turn o).width = if o.swaps then img.height else img.width := rfl

theorem height_turn (img : Image) (o : Scan) :
    (img.turn o).height = if o.swaps then img.width else img.height := rfl

theorem WellFormed.orient (wellFormed : img.WellFormed) (index : Nat) : (img.orient index).WellFormed := by
  have columns := wellFormed.width_pos
  have rows := wellFormed.height_pos
  rw [orient_eq_turn wellFormed]
  apply wellFormed_tabulate
  · split <;> assumption
  · split <;> assumption

/-- The symmetry of the square that an index stands for: a quarter turn for each step up to 3, and from 4 on a
reflection with the turns behind it. -/
def symmetry (index : Nat) : DihedralGroup 4 := if index % 8 < 4 then .r index else .sr index

/-- The index below 8 of a symmetry of the square. -/
def indexOf : DihedralGroup 4 → Nat
  | .r turns => turns.val
  | .sr turns => 4 + turns.val

theorem indexOf_symmetry (index : Nat) : indexOf (symmetry index) = index % 8 := by
  unfold symmetry
  split
  · rw [indexOf, ZMod.val_natCast]
    omega
  · rw [indexOf, ZMod.val_natCast]
    omega

theorem symmetry_indexOf (g : DihedralGroup 4) : symmetry (indexOf g) = g := by
  revert g
  decide

theorem symmetry_eq_iff (a b : Nat) : symmetry a = symmetry b ↔ a % 8 = b % 8 := by
  rw [← indexOf_symmetry, ← indexOf_symmetry]
  exact (Function.LeftInverse.injective symmetry_indexOf).eq_iff.symm

theorem ofIndex_indexOf_symmetry (index : Nat) : ofIndex (indexOf (symmetry index)) = ofIndex index := by
  rw [indexOf_symmetry, ofIndex, ofIndex, Nat.mod_mod]

/-- Scans follow on each other as the symmetries of the square do. -/
theorem ofIndex_mul (g h : DihedralGroup 4) :
    ofIndex (indexOf (g * h)) = (ofIndex (indexOf g)).andThen (ofIndex (indexOf h)) := by
  revert g h
  decide

theorem orient_orient (wellFormed : img.WellFormed) (a b : Nat) :
    (img.orient a).orient b = img.orient (indexOf (symmetry a * symmetry b)) := by
  rw [orient_eq_turn (wellFormed.orient a), orient_eq_turn wellFormed, orient_eq_turn wellFormed, turn_turn,
    ofIndex_mul, ofIndex_indexOf_symmetry, ofIndex_indexOf_symmetry]

theorem size_orient (wellFormed : img.WellFormed) (index : Nat) :
    ((img.orient index).width, (img.orient index).height) =
      if index % 2 = 1 then (img.height, img.width) else (img.width, img.height) := by
  have odd : index % 2 = index % 8 % 2 := by omega
  have small : index % 8 < 8 := Nat.mod_lt index (by decide)
  rw [orient_eq_turn wellFormed, width_turn, height_turn, odd]
  unfold ofIndex
  generalize index % 8 = kind at small
  interval_cases kind <;> rfl

/-- Two columns and two rows, each pixel of its own. -/
def corners : Image := ⟨2, 2, #[0, 1, 2, 3]⟩

theorem wellFormed_corners : corners.WellFormed := ⟨by decide, by decide, by decide⟩

/-- No two of the eight orientations show the same. -/
theorem orient_corners : ∀ a < 8, ∀ b < 8, corners.orient a = corners.orient b → a = b := by decide +kernel

theorem orient_mod (img : Image) (index : Nat) : img.orient (index % 8) = img.orient index := by
  simp only [Image.orient, Nat.mod_mod]

theorem orient_eq_iff (a b : Nat) :
    (∀ img : Image, img.WellFormed → img.orient a = img.orient b) ↔ symmetry a = symmetry b := by
  rw [symmetry_eq_iff]
  constructor
  · intro same
    have shown := same corners wellFormed_corners
    rw [← orient_mod corners a, ← orient_mod corners b] at shown
    exact orient_corners _ (Nat.mod_lt a (by decide)) _ (Nat.mod_lt b (by decide)) shown
  · intro same img _
    rw [← orient_mod img a, ← orient_mod img b, same]

/-- On images, the orientations are the group of symmetries of the square: two of them one after the other are the one
of their product, and no two are the same. Reflections and the half turn undo themselves, the quarter turns undo each
other, and just the odd ones swap width and height. -/
theorem orient_symmetries :
    (∀ a b, ∀ img : Image, img.WellFormed →
      (img.orient a).orient b = img.orient (indexOf (symmetry a * symmetry b))) ∧
    (∀ a b, (∀ img : Image, img.WellFormed → img.orient a = img.orient b) ↔ symmetry a = symmetry b) ∧
    ∀ img : Image, img.WellFormed →
      img.orient 0 = img ∧ (img.orient 1).orient 3 = img ∧ (img.orient 3).orient 1 = img ∧
      (∀ index, index % 8 ∈ [2, 4, 5, 6, 7] → (img.orient index).orient index = img) ∧
      (((img.orient 1).orient 1).orient 1).orient 1 = img ∧
      ∀ index, ((img.orient index).width, (img.orient index).height) =
        if index % 2 = 1 then (img.height, img.width) else (img.width, img.height) := by
  refine ⟨fun a b img wellFormed => orient_orient wellFormed a b, orient_eq_iff, fun img wellFormed => ?_⟩
  have identity : img.orient 0 = img := rfl
  have undone {a b : Nat} (inverse : symmetry a * symmetry b = 1) : (img.orient a).orient b = img := by
    rw [orient_orient wellFormed, inverse]
    exact identity
  refine ⟨identity, undone (by decide), undone (by decide), ?_, ?_, size_orient wellFormed⟩
  · intro index member
    have same : symmetry index = symmetry (index % 8) := by rw [symmetry_eq_iff, Nat.mod_mod]
    apply undone
    rw [same]
    generalize index % 8 = kind at member
    revert kind
    decide
  · have half : (img.orient 1).orient 1 = img.orient 2 := orient_orient wellFormed 1 1
    have again : ((img.orient 2).orient 1).orient 1 = (img.orient 2).orient 2 :=
      orient_orient (wellFormed.orient 2) 1 1
    rw [half, again]
    exact undone (by decide)

/-- Three columns and two rows, each pixel of its own. -/
def ramp : Image := ⟨3, 2, #[0, 1, 2, 3, 4, 5]⟩

theorem orient_symmetries_ramp : ramp.WellFormed ∧ (ramp.orient 5).orient 3 = ramp.orient 4 ∧
    ramp.orient 5 ≠ ramp.orient 7 ∧ (ramp.orient 5).orient 5 = ramp ∧
    ((ramp.orient 5).width, (ramp.orient 5).height) = (2, 3) := by
  have wellFormed : ramp.WellFormed := ⟨by decide, by decide, by decide⟩
  obtain ⟨composed, -, single⟩ := orient_symmetries
  obtain ⟨-, -, -, undone, -, sizes⟩ := single ramp wellFormed
  have product : indexOf (symmetry 5 * symmetry 3) = 4 := by decide
  exact ⟨wellFormed, product ▸ composed 5 3 ramp wellFormed, by decide +kernel, undone 5 (by decide), sizes 5⟩

end TextureLoom.Image
