import TextureLoom.Atlas.Queue

set_option autoImplicit false

namespace TextureLoom.Atlas.Queue

/-- There is a flag for each id, and an id that waits is in line. -/
structure Sound (count : Nat) (q : Queue) : Prop where
  size : q.waiting.size = count
  inLine : ∀ id, q.contains id = true → id ∈ q.order

variable {count : Nat} {q : Queue} {id other : Nat}

theorem contains_setIfInBounds (flags : Array Bool) (flag : Bool) (id other : Nat) :
    (flags.setIfInBounds id flag).getD other false =
      if other = id ∧ id < flags.size then flag else flags.getD other false := by
  simp only [Array.getD_eq_getD_getElem?, Array.getElem?_setIfInBounds]
  by_cases same : id = other
  · subst same
    by_cases bound : id < flags.size
    · simp [bound]
    · simp [bound]
  · simp [same, Ne.symm same]

theorem sound_create (count : Nat) : (create count).Sound count where
  size := Array.size_replicate
  inLine := by
    intro id waits
    simp only [create, contains, Array.getD_eq_getD_getElem?, Array.getElem?_replicate] at waits
    split at waits <;> cases waits

theorem contains_push : (q.push id).contains other = true ↔
    q.contains other = true ∨ other = id ∧ id < q.waiting.size := by
  unfold push
  split
  · rw [contains, contains_setIfInBounds]
    split
    · simp_all
    · rename_i different
      rw [contains]
      exact ⟨Or.inl, fun either => either.resolve_right different⟩
  · rename_i keeps
    refine ⟨Or.inl, ?_⟩
    rintro (waits | ⟨rfl, bound⟩)
    · exact waits
    · simpa [bound] using keeps

theorem Sound.push (sound : q.Sound count) (id : Nat) : (q.push id).Sound count where
  size := by
    rw [← sound.size, Queue.push]
    split
    · exact Array.size_setIfInBounds
    · rfl
  inLine := by
    intro other waits
    have before := contains_push.mp waits
    unfold Queue.push at waits ⊢
    split
    · rcases before with earlier | ⟨rfl, _⟩
      · exact Array.mem_push_of_mem _ (sound.inLine other earlier)
      · exact Array.mem_push_self
    · rename_i keeps
      rw [if_neg keeps] at waits
      exact sound.inLine other waits

/-- Ids that are put in line one after the other all wait. -/
theorem Sound.pushAll (sound : q.Sound count) (ids : List Nat) :
    (ids.foldl Queue.push q).Sound count ∧
      ∀ id < count, id ∈ ids ∨ q.contains id = true → (ids.foldl Queue.push q).contains id = true := by
  induction ids generalizing q with
  | nil => exact ⟨sound, fun id _ waits => waits.resolve_left List.not_mem_nil⟩
  | cons first rest ih =>
    obtain ⟨later, waits⟩ := ih (sound.push first)
    refine ⟨later, ?_⟩
    intro id bound wanted
    apply waits id bound
    rw [contains_push, sound.size]
    rcases wanted with member | earlier
    · rcases List.mem_cons.mp member with rfl | inRest
      · exact Or.inr (Or.inr ⟨rfl, bound⟩)
      · exact Or.inl inRest
    · exact Or.inr (Or.inl earlier)

theorem contains_remove_of_ne (q : Queue) (distinct : other ≠ id) :
    (q.remove id).contains other = q.contains other := by
  rw [remove, contains, contains_setIfInBounds, if_neg (fun both => distinct both.1), contains]

theorem contains_remove_self (q : Queue) (id : Nat) : (q.remove id).contains id = false := by
  rw [remove, contains, contains_setIfInBounds]
  split
  · rfl
  · rename_i beyond
    have outside : ¬id < q.waiting.size := fun bound => beyond ⟨rfl, bound⟩
    rw [Array.getD, dif_neg outside]

theorem Sound.remove (sound : q.Sound count) (id : Nat) : (q.remove id).Sound count where
  size := by
    rw [← sound.size]
    exact Array.size_setIfInBounds
  inLine := by
    intro other waits
    rw [Queue.remove, contains, contains_setIfInBounds] at waits
    split at waits
    · cases waits
    · exact sound.inLine other waits

/-- Taking ids out in order takes those with a flag, and no flag of theirs stays. -/
theorem drain_fold (order : List Nat) (drained : Array Nat) (flags : Array Bool) :
    let after := order.foldl (fun (drained, waiting) id =>
      if waiting.getD id false then (drained.push id, waiting.setIfInBounds id false) else (drained, waiting))
      (drained, flags)
    after.2.size = flags.size ∧
      (∀ id, after.2.getD id false = true → id ∉ order ∧ flags.getD id false = true) ∧
      ∀ id, id ∈ drained ∨ id ∈ order ∧ flags.getD id false = true → id ∈ after.1 := by
  induction order generalizing drained flags with
  | nil => simp
  | cons first rest ih =>
    by_cases waits : flags.getD first false = true
    · simp only [List.foldl_cons, waits, ↓reduceIte]
      obtain ⟨size, flagged, taken⟩ := ih (drained.push first) (flags.setIfInBounds first false)
      refine ⟨size.trans Array.size_setIfInBounds, ?_, ?_⟩
      · intro id stays
        obtain ⟨outside, before⟩ := flagged id stays
        rw [contains_setIfInBounds] at before
        split at before
        · cases before
        · rename_i different
          refine ⟨?_, before⟩
          intro member
          rcases List.mem_cons.mp member with rfl | inRest
          · have inBounds : id < flags.size := by
              by_cases bound : id < flags.size
              · exact bound
              · simp [Array.getD, bound] at waits
            exact different ⟨rfl, inBounds⟩
          · exact outside inRest
      · intro id wanted
        apply taken id
        rcases wanted with earlier | ⟨inOrder, before⟩
        · exact Or.inl (Array.mem_push_of_mem _ earlier)
        · by_cases same : id = first
          · exact Or.inl (same ▸ Array.mem_push_self)
          · refine Or.inr ⟨(List.mem_cons.mp inOrder).resolve_left same, ?_⟩
            rw [contains_setIfInBounds, if_neg (fun both => same both.1)]
            exact before
    · simp only [List.foldl_cons, waits, Bool.false_eq_true, ↓reduceIte]
      obtain ⟨size, flagged, taken⟩ := ih drained flags
      refine ⟨size, ?_, ?_⟩
      · intro id stays
        obtain ⟨outside, before⟩ := flagged id stays
        refine ⟨?_, before⟩
        intro member
        rcases List.mem_cons.mp member with rfl | inRest
        · exact waits before
        · exact outside inRest
      · intro id wanted
        refine taken id (wanted.imp_right ?_)
        rintro ⟨inOrder, before⟩
        refine ⟨(List.mem_cons.mp inOrder).resolve_left ?_, before⟩
        rintro rfl
        exact waits before

/-- All that waits is taken. -/
theorem mem_drain (sound : q.Sound count) (waits : q.contains id = true) : id ∈ q.drain.1 := by
  have taken := (drain_fold q.order.toList #[] q.waiting).2.2 id
    (Or.inr ⟨Array.mem_toList_iff.mpr (sound.inLine id waits), waits⟩)
  simp only [drain, ← Array.foldl_toList]
  exact Array.mem_toList_iff.mpr taken

/-- Only what waits is taken, and once. -/
theorem nodup_drain_fold (order : List Nat) (drained : Array Nat) (flags : Array Bool)
    (distinct : drained.toList.Nodup) (taken : ∀ id ∈ drained, flags.getD id false = false) :
    let after := order.foldl (fun (drained, waiting) id =>
      if waiting.getD id false then (drained.push id, waiting.setIfInBounds id false) else (drained, waiting))
      (drained, flags)
    after.1.toList.Nodup ∧ ∀ id, id ∈ after.1 → id ∈ drained ∨ flags.getD id false = true := by
  induction order generalizing drained flags with
  | nil => exact ⟨distinct, fun _ member => Or.inl member⟩
  | cons first rest ih =>
    by_cases waits : flags.getD first false = true
    · simp only [List.foldl_cons, waits, ↓reduceIte]
      have isNew : first ∉ drained := by
        intro member
        rw [taken first member] at waits
        cases waits
      have pushed : (drained.push first).toList.Nodup := by
        rw [Array.toList_push, List.nodup_append]
        refine ⟨distinct, List.pairwise_singleton _ first, fun id member other isOther => ?_⟩
        cases List.mem_singleton.mp isOther
        rintro rfl
        exact isNew (Array.mem_toList_iff.mp member)
      have unflagged : ∀ id ∈ drained.push first, (flags.setIfInBounds first false).getD id false = false := by
        intro id member
        rw [contains_setIfInBounds]
        split
        · rfl
        · rename_i different
          rcases Array.mem_push.mp member with before | rfl
          · exact taken id before
          · rw [Array.getD, dif_neg fun bound => different ⟨rfl, bound⟩]
      obtain ⟨nodup, members⟩ := ih (drained.push first) (flags.setIfInBounds first false) pushed unflagged
      refine ⟨nodup, fun id member => ?_⟩
      rcases members id member with earlier | flagged
      · rcases Array.mem_push.mp earlier with before | rfl
        · exact Or.inl before
        · exact Or.inr waits
      · rw [contains_setIfInBounds] at flagged
        split at flagged
        · cases flagged
        · exact Or.inr flagged
    · simp only [List.foldl_cons, waits, Bool.false_eq_true, ↓reduceIte]
      exact ih drained flags distinct taken

theorem nodup_drain (q : Queue) : q.drain.1.Nodup ∧ ∀ id ∈ q.drain.1, q.contains id = true := by
  obtain ⟨distinct, members⟩ := nodup_drain_fold q.order.toList #[] q.waiting List.nodup_nil
    fun id member => absurd member (Array.not_mem_empty id)
  simp only [drain, ← Array.foldl_toList]
  refine ⟨distinct, fun id member => ?_⟩
  exact (members id (Array.mem_toList_iff.mp member)).resolve_left (Array.not_mem_empty id)

theorem Sound.mem_drain_iff (sound : q.Sound count) : id ∈ q.drain.1 ↔ q.contains id = true :=
  ⟨q.nodup_drain.2 id, mem_drain sound⟩

/-- Nothing waits in a queue that was drained. -/
theorem Sound.not_contains_drain (sound : q.Sound count) (id : Nat) : q.drain.2.contains id = false := by
  rw [Bool.eq_false_iff]
  simp only [Queue.drain, ← Array.foldl_toList]
  intro waits
  obtain ⟨outside, before⟩ := (drain_fold q.order.toList #[] q.waiting).2.1 id waits
  exact outside (Array.mem_toList_iff.mpr (sound.inLine id before))

theorem Sound.drain (sound : q.Sound count) : q.drain.2.Sound count := by
  obtain ⟨size, flagged, _⟩ := drain_fold q.order.toList #[] q.waiting
  simp only [Queue.drain, ← Array.foldl_toList]
  refine ⟨size.trans sound.size, ?_⟩
  intro id waits
  obtain ⟨outside, before⟩ := flagged id waits
  exact absurd (Array.mem_toList_iff.mpr (sound.inLine id before)) outside

theorem not_contains_of_isEmpty (sound : q.Sound count) (empty : q.isEmpty = true) (id : Nat) :
    q.contains id = false := by
  rw [Bool.eq_false_iff]
  intro waits
  have inLine := sound.inLine id waits
  rw [isEmpty, Array.isEmpty_iff] at empty
  rw [empty] at inLine
  exact absurd inLine (Array.not_mem_empty id)

end TextureLoom.Atlas.Queue
