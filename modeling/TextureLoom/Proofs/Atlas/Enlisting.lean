import TextureLoom.Proofs.Atlas.Waiting
import TextureLoom.Proofs.Repeats

set_option autoImplicit false

namespace TextureLoom.Atlas.Queue

/-- What is done with a queue. -/
inductive Call where
  | push (id : Nat)
  | remove (id : Nat)
  | drain

def step (q : Queue) : Call → Queue
  | .push id => q.push id
  | .remove id => q.remove id
  | .drain => q.drain.2

/-- A queue for ids below `count` after some calls. -/
def after (count : Nat) (calls : List Call) : Queue := calls.foldl step (create count)

/-- Since some push of the id there was neither a removal of it nor a drain. -/
def Waits (calls : List Call) (id : Nat) : Prop :=
  ∃ before behind, calls = before ++ .push id :: behind ∧ .remove id ∉ behind ∧ .drain ∉ behind

/-- The ids pushed since the last drain, in order and as often as they were pushed. -/
def pushed (calls : List Call) : List Nat :=
  calls.foldl (fun ids call =>
    match call with
    | .push id => ids ++ [id]
    | .remove _ => ids
    | .drain => []) []

variable {count : Nat} {calls : List Call} {id : Nat} {last : Call} {q : Queue}

theorem after_concat (count : Nat) (calls : List Call) (last : Call) :
    after count (calls ++ [last]) = (after count calls).step last := by
  rw [after, List.foldl_append, List.foldl_cons, List.foldl_nil, after]

theorem waits_concat :
    Waits (calls ++ [last]) id ↔ last = .push id ∨ Waits calls id ∧ last ≠ .remove id ∧ last ≠ .drain := by
  constructor
  · rintro ⟨before, behind, split, kept, goesOn⟩
    rcases List.eq_nil_or_concat behind with rfl | ⟨front, final, rfl⟩
    · exact .inl (List.append_inj_right' split rfl |> List.singleton_inj.mp)
    · rw [List.concat_eq_append, ← List.cons_append, ← List.append_assoc] at split
      obtain ⟨rfl, same⟩ := List.append_inj' split rfl
      cases same
      rw [List.concat_eq_append, List.mem_append, not_or, List.mem_singleton] at kept goesOn
      exact .inr ⟨⟨before, front, rfl, kept.1, goesOn.1⟩, Ne.symm kept.2, Ne.symm goesOn.2⟩
  · rintro (rfl | ⟨⟨before, behind, rfl, kept, goesOn⟩, noRemoval, noDrain⟩)
    · exact ⟨calls, [], rfl, List.not_mem_nil, List.not_mem_nil⟩
    · refine ⟨before, behind ++ [last], by simp, ?_, ?_⟩
      · simpa [kept] using Ne.symm noRemoval
      · simpa [goesOn] using Ne.symm noDrain

theorem sound_after (count : Nat) (calls : List Call) : (after count calls).Sound count := by
  induction calls using List.reverseRecOn with
  | nil => exact sound_create count
  | append_singleton calls last ih =>
    rw [after_concat]
    cases last with
    | push id => exact ih.push id
    | remove id => exact ih.remove id
    | drain => exact ih.drain

/-- At every moment the flags tell which ids wait. -/
theorem contains_after (count : Nat) (calls : List Call) (id : Nat) :
    (after count calls).contains id = true ↔ id < count ∧ Waits calls id := by
  induction calls using List.reverseRecOn with
  | nil =>
    have absent : ¬Waits [] id := fun ⟨before, behind, split, _⟩ => by simp at split
    refine iff_of_false (fun waits => ?_) fun both => absent both.2
    exact absurd ((sound_create count).inLine id waits) (Array.not_mem_empty id)
  | append_singleton calls last ih =>
    rw [after_concat, waits_concat]
    cases last with
    | push other =>
      rw [step, contains_push, ih, (sound_after count calls).size]
      grind
    | remove other =>
      rw [step]
      by_cases same : id = other
      · subst same
        rw [contains_remove_self]
        simp
      · rw [contains_remove_of_ne _ same, ih]
        grind
    | drain =>
      rw [step, (sound_after count calls).not_contains_drain]
      simp

/-- Going through the line takes each flagged id at its first copy, the flag being gone at the others. -/
theorem drain_fold_eq (order : List Nat) (drained : Array Nat) (flags : Array Bool) :
    (order.foldl (fun (drained, waiting) id =>
      if waiting.getD id false then (drained.push id, waiting.setIfInBounds id false) else (drained, waiting))
      (drained, flags)).1.toList = drained.toList ++ (order.filter fun id => flags.getD id false).eraseDups := by
  induction order generalizing drained flags with
  | nil => exact (List.append_nil _).symm
  | cons first rest ih =>
    rw [List.foldl_cons]
    dsimp only
    by_cases waits : flags.getD first false = true
    · have others : (rest.filter fun id => (flags.setIfInBounds first false).getD id false) =
          (rest.filter fun id => flags.getD id false).filter fun id => !id == first := by
        rw [List.filter_filter]
        apply List.filter_congr
        intro id _
        rw [contains_setIfInBounds]
        by_cases same : id = first
        · subst same
          have bound : id < flags.size := by
            by_contra outside
            rw [Array.getD, dif_neg outside] at waits
            cases waits
          simp [bound]
        · simp [same]
      rw [if_pos waits, ih, others, List.filter_cons, if_pos waits, List.eraseDups_cons, Array.toList_push,
        List.append_assoc, List.singleton_append]
    · rw [if_neg waits, ih, List.filter_cons, if_neg waits]

/-- An id that waits stands where its first copy in the line is. -/
theorem drain_eq (q : Queue) : q.drain.1 = (q.order.toList.filter q.contains).eraseDups := by
  simp only [drain, ← Array.foldl_toList]
  exact (drain_fold_eq q.order.toList #[] q.waiting).trans (List.nil_append _)

/-- The first copies in the line are in the order of the first pushes since the last drain. -/
theorem eraseDups_order (count : Nat) (calls : List Call) : (after count calls).order.toList.eraseDups =
    ((pushed calls).filter fun id => id < count).eraseDups := by
  induction calls using List.reverseRecOn with
  | nil => rfl
  | append_singleton calls last ih =>
    rw [after_concat, pushed, List.foldl_append, List.foldl_cons, List.foldl_nil, ← pushed]
    cases last with
    | push id =>
      have known : (after count calls).order.toList.contains id =
          ((pushed calls).filter fun id => id < count).contains id := by
        rw [Bool.eq_iff_iff, List.contains_iff_mem, List.contains_iff_mem, ← List.mem_eraseDups, ih,
          List.mem_eraseDups]
      have sound := sound_after count calls
      dsimp only
      rw [step, push, List.filter_append, sound.size]
      by_cases bound : id < count
      · rw [List.filter_cons_of_pos (by simpa using bound), List.filter_nil, eraseDups_concat, ← known, ← ih]
        by_cases waits : (after count calls).contains id = true
        · have inLine : (after count calls).order.toList.contains id = true :=
            List.contains_iff_mem.mpr (Array.mem_toList_iff.mpr (sound.inLine id waits))
          rw [if_neg (by simp [waits]), if_pos inLine]
        · rw [if_pos ⟨bound, by simpa using waits⟩, Array.toList_push, eraseDups_concat]
      · rw [if_neg (fun both => bound both.1), List.filter_cons_of_neg (by simpa using bound), List.filter_nil,
          List.append_nil, ih]
    | remove id => exact ih
    | drain => rfl

/-- What a queue does after some calls: it has the ids that wait, hands them out once each, in the order of their first
pushes since the last drain, and is empty then. -/
structure Exact (count : Nat) (calls : List Call) (q : Queue) : Prop where
  contains_iff : ∀ id, q.contains id = true ↔ id < count ∧ Waits calls id
  mem_drain_iff : ∀ id, id ∈ q.drain.1 ↔ id < count ∧ Waits calls id
  once : q.drain.1.Nodup
  order : q.drain.1 = (pushed calls).eraseDups.filter q.contains
  empty : q.drain.2.isEmpty = true ∧ ∀ id, q.drain.2.contains id = false

/-- Copies of removed ids that stay in line change nothing. -/
theorem exact_after (count : Nat) (calls : List Call) : Exact count calls (after count calls) := by
  have sound := sound_after count calls
  refine ⟨contains_after count calls, fun id => sound.mem_drain_iff.trans (contains_after count calls id),
    (nodup_drain _).1, ?_, rfl, sound.not_contains_drain⟩
  have small : ∀ id ∈ pushed calls, (after count calls).contains id = true → id < count := fun id _ waits =>
    ((contains_after count calls id).mp waits).1
  rw [drain_eq, ← filter_eraseDups, eraseDups_order, filter_eraseDups, List.filter_filter, filter_eraseDups]
  congr 1
  apply List.filter_congr
  intro id member
  rw [Bool.eq_iff_iff, Bool.and_eq_true, decide_eq_true_eq]
  exact and_iff_left_of_imp (small id member)

example : (after 3 [.push 1, .push 2, .remove 1, .push 1, .push 0, .remove 2]).order = #[1, 2, 1, 0] ∧
    (after 3 [.push 1, .push 2, .remove 1, .push 1, .push 0, .remove 2]).drain.1 = [1, 0] := by decide

end TextureLoom.Atlas.Queue
