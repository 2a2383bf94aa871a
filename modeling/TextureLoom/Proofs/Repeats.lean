import Mathlib.Data.List.Induction

set_option autoImplicit false

namespace TextureLoom

/-- Leaving out repetitions leaves out no element. -/
theorem mem_eraseReps {α : Type} [BEq α] [LawfulBEq α] {a : α} {l : List α} : a ∈ l.eraseReps ↔ a ∈ l := by
  have loop : ∀ (rest : List α) (last : α) (done : List α),
      a ∈ List.eraseRepsBy.loop (· == ·) last rest done ↔ a ∈ done ∨ a = last ∨ a ∈ rest := by
    intro rest
    induction rest with
    | nil =>
      intro last done
      simp [List.eraseRepsBy.loop, or_comm]
    | cons next rest ih =>
      intro last done
      rw [List.eraseRepsBy.loop]
      cases same : last == next with
      | true =>
        rw [beq_iff_eq] at same
        simp [ih, same]
      | false =>
        simp only [ih, List.mem_cons]
        rw [or_assoc, or_left_comm]
  cases l with
  | nil => exact Iff.rfl
  | cons first rest =>
    rw [List.eraseReps, List.eraseRepsBy, loop, List.mem_cons]
    simp

theorem eraseReps_cons_cons {α : Type} [BEq α] [LawfulBEq α] (a b : α) (l : List α) :
    (a :: b :: l).eraseReps = if a == b then (b :: l).eraseReps else a :: (b :: l).eraseReps := by
  have loop : ∀ (rest : List α) (last : α) (done : List α), List.eraseRepsBy.loop (· == ·) last rest done =
      done.reverse ++ List.eraseRepsBy.loop (· == ·) last rest [] := by
    intro rest
    induction rest with
    | nil => simp [List.eraseRepsBy.loop]
    | cons next rest ih =>
      intro last done
      rw [List.eraseRepsBy.loop, List.eraseRepsBy.loop]
      cases last == next with
      | true => exact ih last done
      | false =>
        dsimp only
        rw [ih next (last :: done), ih next [last], List.reverse_cons, List.append_assoc]
        rfl
  simp only [List.eraseReps, List.eraseRepsBy]
  rw [List.eraseRepsBy.loop]
  cases same : a == b with
  | true =>
    rw [eq_of_beq same]
    rfl
  | false => exact loop l b [a]

/-- In a sorted list, what is the same stands together. -/
theorem nodup_eraseReps {α : Type} [BEq α] [LawfulBEq α] {le : α → α → Bool}
    (antisymm : ∀ a b, le a b → le b a → a = b) {l : List α} (sorted : l.Pairwise fun a b => le a b) :
    l.eraseReps.Nodup := by
  induction l with
  | nil => exact List.nodup_nil
  | cons a rest ih =>
    cases rest with
    | nil => simp [List.eraseReps, List.eraseRepsBy, List.eraseRepsBy.loop]
    | cons b rest =>
      obtain ⟨first, sorted⟩ := List.pairwise_cons.mp sorted
      rw [eraseReps_cons_cons]
      split
      · exact ih sorted
      · rename_i different
        refine List.nodup_cons.mpr ⟨fun again => ?_, ih sorted⟩
        rw [mem_eraseReps, List.mem_cons] at again
        -- What comes again later stands behind `b`, which stands behind `a`.
        have same : a = b := again.elim id fun later =>
          antisymm a b (first b List.mem_cons_self) ((List.pairwise_cons.mp sorted).1 a later)
        exact different (beq_iff_eq.mpr same)

theorem eraseReps_sublist {α : Type} [BEq α] [LawfulBEq α] (l : List α) : l.eraseReps.Sublist l := by
  induction l with
  | nil => exact .slnil
  | cons a rest ih =>
    cases rest with
    | nil => simp [List.eraseReps, List.eraseRepsBy, List.eraseRepsBy.loop]
    | cons b rest =>
      rw [eraseReps_cons_cons]
      split
      · exact ih.cons a
      · exact ih.cons_cons a

/-- Sorting numbers and leaving out repetitions leaves them ascending. -/
theorem ascends_eraseReps_mergeSort (numbers : List Nat) : numbers.mergeSort.eraseReps.Pairwise (· < ·) := by
  have sorted : numbers.mergeSort.Pairwise fun a b => decide (a ≤ b) = true :=
    List.pairwise_mergeSort (by simp; omega) (by simp; omega) numbers
  have once := nodup_eraseReps (by simp; omega) sorted
  have kept := sorted.sublist (eraseReps_sublist _)
  exact (once.and kept).imp fun ⟨differ, le⟩ => Nat.lt_of_le_of_ne (of_decide_eq_true le) differ

/-- Of two members of a list, one stands in front of the other unless they are the same. -/
theorem eq_or_of_pairwise {α : Type} {before : α → α → Prop} {l : List α} (stands : l.Pairwise before) {a b : α}
    (first : a ∈ l) (second : b ∈ l) : a = b ∨ before a b ∨ before b a :=
  List.Pairwise.forall_of_forall_of_flip (R := fun a b => a = b ∨ before a b ∨ before b a) (fun _ _ => .inl rfl)
    (stands.imp fun front => .inr (.inl front)) (stands.imp fun front => .inr (.inr front)) first second

/-- There is one ascending list of some numbers. -/
theorem eq_of_ascends {first second : List Nat} (firstAscends : first.Pairwise (· < ·))
    (secondAscends : second.Pairwise (· < ·)) (same : ∀ n, n ∈ first ↔ n ∈ second) : first = second := by
  have perm : first.Perm second :=
    (List.perm_ext_iff_of_nodup (firstAscends.imp Nat.ne_of_lt) (secondAscends.imp Nat.ne_of_lt)).mpr fun n => same n
  exact perm.eq_of_pairwise (fun _ _ _ _ => Nat.le_antisymm) (firstAscends.imp Nat.le_of_lt)
    (secondAscends.imp Nat.le_of_lt)

theorem nodup_eraseDups {α : Type} [BEq α] [LawfulBEq α] (l : List α) : l.eraseDups.Nodup := by
  match l with
  | [] => exact List.nodup_nil
  | first :: rest =>
    rw [List.eraseDups_cons, List.nodup_cons]
    refine ⟨fun again => ?_, nodup_eraseDups (rest.filter fun other => !other == first)⟩
    simp [List.mem_eraseDups] at again
termination_by l.length
decreasing_by exact Nat.lt_succ_of_le (List.length_filter_le _ _)

theorem eraseDups_concat {α : Type} [BEq α] [LawfulBEq α] (l : List α) (a : α) :
    (l ++ [a]).eraseDups = if l.contains a then l.eraseDups else l.eraseDups ++ [a] := by
  have alone : [a].eraseDups = [a] := rfl
  rw [List.eraseDups_append, List.removeAll, List.filter_cons, List.filter_nil, List.elem_eq_contains]
  cases l.contains a with
  | true => exact List.append_nil _
  | false => rw [Bool.not_false, if_pos rfl, alone, if_neg Bool.false_ne_true]

theorem head?_eraseDups {α : Type} [BEq α] (l : List α) : l.eraseDups.head? = l.head? := by
  cases l with
  | nil => rfl
  | cons a rest => rw [List.eraseDups_cons, List.head?_cons, List.head?_cons]

/-- Leaving out repetitions before a renaming makes no difference if they are left out behind it. -/
theorem eraseDups_map_eraseDups {α β : Type} [BEq α] [LawfulBEq α] [BEq β] [LawfulBEq β] (f : α → β) (l : List α) :
    (l.eraseDups.map f).eraseDups = (l.map f).eraseDups := by
  induction l using List.reverseRecOn with
  | nil => rfl
  | append_singleton l a ih =>
    rw [eraseDups_concat, List.map_append, List.map_singleton, eraseDups_concat]
    by_cases known : l.contains a
    · have knownImage : (l.map f).contains (f a) := by
        simp only [List.contains_iff_mem] at known ⊢
        exact List.mem_map_of_mem known
      rw [if_pos known, if_pos knownImage, ih]
    · have same : (l.eraseDups.map f).contains (f a) = (l.map f).contains (f a) := by
        rw [Bool.eq_iff_iff]
        simp only [List.contains_iff_mem, List.mem_map, List.mem_eraseDups]
      rw [if_neg known, List.map_append, List.map_singleton, eraseDups_concat, same, ih]

/-- What is picked out of a list does not depend on repetitions. -/
theorem filter_eraseDups {α : Type} [BEq α] [LawfulBEq α] (p : α → Bool) (l : List α) :
    l.eraseDups.filter p = (l.filter p).eraseDups := by
  induction l using List.reverseRecOn with
  | nil => rfl
  | append_singleton l a ih =>
    cases picked : p a with
    | false =>
      have passed : [a].filter p = [] := by rw [List.filter_cons_of_neg (by simp [picked]), List.filter_nil]
      rw [eraseDups_concat, List.filter_append, passed, List.append_nil, ← ih]
      split
      · rfl
      · rw [List.filter_append, passed, List.append_nil]
    | true =>
      have kept : [a].filter p = [a] := by rw [List.filter_cons_of_pos picked, List.filter_nil]
      have known : (l.filter p).contains a = l.contains a := by
        rw [Bool.eq_iff_iff]
        simp [picked]
      rw [eraseDups_concat, List.filter_append, kept, eraseDups_concat, known, ← ih]
      split
      · rfl
      · rw [List.filter_append, kept]

/-- What a list adds to what is known, each once. -/
def fresh (known l : List Nat) : List Nat := (l.removeAll known).eraseDups

section

variable {known other l m : List Nat} {n : Nat}

theorem mem_removeAll : n ∈ l.removeAll known ↔ n ∈ l ∧ n ∉ known := by
  simp [List.removeAll]

theorem mem_fresh : n ∈ fresh known l ↔ n ∈ l ∧ n ∉ known := by
  rw [fresh, List.mem_eraseDups, mem_removeAll]

theorem nodup_fresh (known l : List Nat) : (fresh known l).Nodup := nodup_eraseDups _

theorem fresh_nil_left (l : List Nat) : fresh [] l = l.eraseDups := by
  rw [fresh, List.removeAll, List.filter_eq_self.mpr fun n _ => by simp]

theorem fresh_nil_right (known : List Nat) : fresh known [] = [] := rfl

/-- Only which numbers are known matters. -/
theorem fresh_congr (same : ∀ n, n ∈ known ↔ n ∈ other) (l : List Nat) : fresh known l = fresh other l := by
  have agree : ∀ n ∈ l, (!known.elem n) = !other.elem n := by
    intro n _
    rw [Bool.eq_iff_iff]
    simp [same n]
  rw [fresh, fresh, List.removeAll, List.removeAll, List.filter_congr agree]

theorem removeAll_append (known other l : List Nat) :
    l.removeAll (known ++ other) = (l.removeAll known).removeAll other := by
  simp only [List.removeAll, List.filter_filter]
  apply List.filter_congr
  intro n _
  rw [Bool.eq_iff_iff]
  simp [and_comm]

/-- What comes later is new if it is neither known nor in front. -/
theorem fresh_append (known l m : List Nat) : fresh known (l ++ m) = fresh known l ++ fresh (known ++ l) m := by
  have behind : (m.removeAll known).removeAll (l.removeAll known) = m.removeAll (known ++ l) := by
    rw [← removeAll_append]
    apply List.filter_congr
    intro n _
    rw [Bool.eq_iff_iff]
    by_cases old : n ∈ known <;> simp [mem_removeAll, old]
  have parts : (l ++ m).removeAll known = l.removeAll known ++ m.removeAll known := List.filter_append ..
  rw [fresh, parts, List.eraseDups_append, behind]
  rfl

/-- Lists that add the same numbers add as many. -/
theorem length_fresh_congr (same : ∀ n ∉ known, n ∈ l ↔ n ∈ m) : (fresh known l).length = (fresh known m).length := by
  apply List.Perm.length_eq
  rw [List.perm_ext_iff_of_nodup (nodup_fresh known l) (nodup_fresh known m)]
  intro n
  rw [mem_fresh, mem_fresh]
  exact and_congr_left (same n)

/-- What is new behind some of the new is what is still new to who knows that too. -/
theorem fresh_eq_append (leads : fresh known l <+: fresh known m) :
    fresh known m = fresh known l ++ fresh (known ++ l) m := by
  obtain ⟨rest, isWhole⟩ := leads
  have once := nodup_fresh known m
  rw [← isWhole, List.nodup_append] at once
  have older : (fresh known l).removeAll l = [] := by
    apply List.filter_eq_nil_iff.mpr
    intro n member
    simp [(mem_fresh.mp member).1]
  have newer : rest.removeAll l = rest := by
    apply List.filter_eq_self.mpr
    intro n member
    have added : n ∈ fresh known m := isWhole ▸ List.mem_append_right _ member
    have apart : n ∉ l := fun again =>
      once.2.2 n (mem_fresh.mpr ⟨again, (mem_fresh.mp added).2⟩) n member rfl
    simp [apart]
  calc fresh known m = fresh known l ++ rest := isWhole.symm
    _ = fresh known l ++ (fresh known l ++ rest).removeAll l := by
      rw [List.removeAll, List.filter_append, ← List.removeAll, ← List.removeAll, older, newer, List.nil_append]
    _ = fresh known l ++ (fresh known m).removeAll l := by rw [isWhole]
    _ = fresh known l ++ fresh (known ++ l) m := by
      have picked : (fresh known m).removeAll l = ((m.removeAll known).removeAll l).eraseDups := filter_eraseDups _ _
      rw [picked, ← removeAll_append, ← fresh]

end

end TextureLoom
