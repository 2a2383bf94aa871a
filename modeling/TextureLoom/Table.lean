set_option autoImplicit false

namespace TextureLoom

/-- A finite map as a list of entries, the first one of a key counting. -/
abbrev Table (κ ν : Type) := List (κ × ν)

namespace Table

variable {κ ν : Type} [DecidableEq κ]

/-- The value of a key. -/
def get? : Table κ ν → κ → Option ν
  | [], _ => none
  | (k, v) :: rest, key => if k = key then some v else get? rest key

/-- The table with the value of a key changed, if it has one. -/
def modify (key : κ) (f : ν → ν) : Table κ ν → Table κ ν
  | [] => []
  | (k, v) :: rest => if k = key then (k, f v) :: rest else (k, v) :: modify key f rest

/-- The table without the entries of a key. -/
def erase (t : Table κ ν) (key : κ) : Table κ ν := t.filter fun entry => decide (entry.1 ≠ key)

/-- The table with a new value for a key. -/
def insert (t : Table κ ν) (key : κ) (value : ν) : Table κ ν := (key, value) :: t.erase key

theorem get?_erase_self (t : Table κ ν) (key : κ) : (t.erase key).get? key = none := by
  induction t with
  | nil => rfl
  | cons entry rest ih =>
    by_cases same : entry.1 = key
    · simpa [erase, same] using ih
    · simpa [erase, same, get?] using ih

theorem get?_erase_of_ne (t : Table κ ν) {key other : κ} (distinct : other ≠ key) :
    (t.erase key).get? other = t.get? other := by
  induction t with
  | nil => rfl
  | cons entry rest ih =>
    by_cases same : entry.1 = key
    · have : entry.1 ≠ other := fun h => distinct (h.symm.trans same)
      simpa [erase, same, get?, this, distinct.symm] using ih
    · by_cases found : entry.1 = other
      · simp [erase, get?, found, distinct]
      · simpa [erase, same, get?, found] using ih

theorem get?_insert_self (t : Table κ ν) (key : κ) (value : ν) : (t.insert key value).get? key = some value := by
  simp [insert, get?]

theorem get?_insert_of_ne (t : Table κ ν) {key other : κ} (value : ν) (distinct : other ≠ key) :
    (t.insert key value).get? other = t.get? other := by
  simp [insert, get?, distinct.symm, get?_erase_of_ne t distinct]

theorem get?_modify_self (t : Table κ ν) (key : κ) (f : ν → ν) : (t.modify key f).get? key = (t.get? key).map f := by
  induction t with
  | nil => rfl
  | cons entry rest ih => by_cases same : entry.1 = key <;> simp [modify, get?, same, ih]

theorem get?_modify_of_ne (t : Table κ ν) {key other : κ} (f : ν → ν) (distinct : other ≠ key) :
    (t.modify key f).get? other = t.get? other := by
  induction t with
  | nil => rfl
  | cons entry rest ih =>
    by_cases same : entry.1 = key
    · simp [modify, get?, same, distinct.symm]
    · by_cases found : entry.1 = other
      · subst found
        simp [modify, get?, same]
      · simp [modify, get?, same, found, ih]

theorem get?_modify (t : Table κ ν) (key other : κ) (f : ν → ν) :
    (t.modify key f).get? other = (t.get? other).map fun value => if other = key then f value else value := by
  split
  · rename_i same
    subst same
    exact get?_modify_self t other f
  · rename_i distinct
    rw [get?_modify_of_ne t f distinct, Option.map_id']

section

variable {t : Table κ ν} {key : κ} {value : ν}

/-- The keys of the entries. -/
def keys (t : Table κ ν) : List κ := t.map (·.1)

theorem isSome_get? : (t.get? key).isSome ↔ key ∈ t.keys := by
  induction t with
  | nil => simp [get?, keys]
  | cons entry rest ih =>
    rw [get?, keys, List.map_cons, List.mem_cons]
    split
    · rename_i same
      simp [same]
    · rename_i different
      rw [ih]
      simp [keys, Ne.symm different]

theorem mem_of_get? (found : t.get? key = some value) : (key, value) ∈ t := by
  induction t with
  | nil => cases found
  | cons entry rest ih =>
    rw [get?] at found
    split at found
    · rename_i same
      cases found
      rw [← same]
      exact List.mem_cons_self
    · exact List.mem_cons_of_mem entry (ih found)

theorem get?_of_mem (once : t.keys.Nodup) (member : (key, value) ∈ t) : t.get? key = some value := by
  induction t with
  | nil => cases member
  | cons entry rest ih =>
    rw [keys, List.map_cons, List.nodup_cons] at once
    rw [get?]
    rcases List.mem_cons.mp member with rfl | later
    · exact if_pos rfl
    · rw [if_neg, ih once.2 later]
      rintro same
      exact once.1 (same ▸ List.mem_map_of_mem later)

theorem nodup_keys_erase (once : t.keys.Nodup) (key : κ) : (t.erase key).keys.Nodup :=
  once.sublist (List.filter_sublist.map _)

theorem nodup_keys_insert (once : t.keys.Nodup) (key : κ) (value : ν) : (t.insert key value).keys.Nodup := by
  refine List.nodup_cons.mpr ⟨fun again => ?_, nodup_keys_erase once key⟩
  have found := isSome_get?.mpr again
  rw [get?_erase_self] at found
  cases found

theorem get?_map {μ : Type} (t : Table κ ν) (f : ν → μ) (key : κ) :
    Table.get? (t.map fun (k, v) => (k, f v)) key = (t.get? key).map f := by
  induction t with
  | nil => rfl
  | cons entry rest ih =>
    rw [List.map_cons, get?, get?, ih]
    split <;> rfl

theorem map_erase {μ : Type} (f : ν → μ) (t : Table κ ν) (key : κ) :
    (t.erase key).map (fun (k, v) => (k, f v)) = Table.erase (t.map fun (k, v) => (k, f v)) key := by
  rw [erase, erase, List.filter_map]
  rfl

/-- A change of the values of a table may come before or after a change of one of them. -/
theorem map_modify {μ : Type} {f : ν → μ} {g : ν → ν} {h : μ → μ}
    (same : ∀ v, t.get? key = some v → f (g v) = h (f v)) :
    (t.modify key g).map (fun (k, v) => (k, f v)) = Table.modify key h (t.map fun (k, v) => (k, f v)) := by
  induction t with
  | nil => rfl
  | cons entry rest ih =>
    rw [modify, List.map_cons, modify]
    rw [get?] at same
    split
    · rename_i found
      rw [if_pos found] at same
      rw [List.map_cons, ← same entry.2 rfl]
    · rename_i other
      rw [if_neg other] at same
      rw [List.map_cons, ih same]

theorem keys_modify (key : κ) (f : ν → ν) (t : Table κ ν) : (t.modify key f).keys = t.keys := by
  induction t with
  | nil => rfl
  | cons entry rest ih =>
    rw [modify]
    split
    · rfl
    · exact congrArg (entry.1 :: ·) ih

theorem erase_of_not_mem (absent : key ∉ t.keys) : t.erase key = t := by
  refine List.filter_eq_self.mpr fun entry member => decide_eq_true ?_
  rintro rfl
  exact absent (List.mem_map_of_mem member)

theorem perm_cons_erase (once : t.keys.Nodup) (found : t.get? key = some value) :
    List.Perm t ((key, value) :: t.erase key) := by
  induction t with
  | nil => cases found
  | cons entry rest ih =>
    rw [keys, List.map_cons, List.nodup_cons] at once
    by_cases same : entry.1 = key
    · subst same
      have isValue : entry.2 = value := by simpa [get?] using found
      have alone : Table.erase (entry :: rest) entry.1 = rest := by
        rw [Table.erase, List.filter_cons_of_neg (by simp)]
        exact erase_of_not_mem once.1
      rw [alone, ← isValue]
    · have later : Table.get? rest key = some value := by simpa [get?, same] using found
      have kept : Table.erase (entry :: rest) key = entry :: Table.erase rest key :=
        List.filter_cons_of_pos (by simpa using same)
      rw [kept]
      exact ((ih once.2 later).cons entry).trans (List.Perm.swap _ _ _)

theorem keys_perm_cons_erase (once : t.keys.Nodup) (member : key ∈ t.keys) :
    t.keys.Perm (key :: (t.erase key).keys) := by
  obtain ⟨value, found⟩ := Option.isSome_iff_exists.mp (isSome_get?.mpr member)
  exact (perm_cons_erase once found).map (·.1)

end

end Table

end TextureLoom
