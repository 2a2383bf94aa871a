import TextureLoom.Atlas.Staging
import TextureLoom.Proofs.Bytes

set_option autoImplicit false

namespace TextureLoom.Atlas.Staging

open Bytes

/-- `after` has the bytes that `before` has in use. -/
structure Extends (after before : Staging) : Prop where
  size : after.size = before.size
  used : before.used ≤ after.used
  bytes : ∀ i < before.used, byteAt after.bytes i = byteAt before.bytes i

theorem Extends.refl (s : Staging) : s.Extends s := ⟨rfl, Nat.le_refl _, fun _ _ => rfl⟩

theorem Extends.trans {last middle first : Staging} (later : last.Extends middle) (earlier : middle.Extends first) :
    last.Extends first where
  size := later.size.trans earlier.size
  used := Nat.le_trans earlier.used later.used
  bytes := fun i bound => (later.bytes i (Nat.lt_of_lt_of_le bound earlier.used)).trans (earlier.bytes i bound)

/-- A range that was not in use, in the buffer and aligned. -/
structure IsRange (s : Staging) (count alignment start stop : Nat) : Prop where
  behind : s.used ≤ start
  stop_eq : stop = start + count
  inside : stop ≤ s.size
  aligned : alignment ∣ start

theorem isRange_of_nextRange? {s : Staging} {count alignment start stop : Nat} (positive : 0 < alignment)
    (found : s.nextRange? count alignment = some (start, stop)) : s.IsRange count alignment start stop := by
  have atLeast : max alignment 1 = alignment := Nat.max_eq_left positive
  simp only [nextRange?, atLeast] at found
  obtain ⟨padded, isPadded, found⟩ := Option.bind_eq_some_iff.mp found
  obtain ⟨last, isLast, found⟩ := Option.bind_eq_some_iff.mp found
  split at found
  · cases found
  · cases found
    have paddedEq : padded = s.used + (alignment - 1) := by
      unfold sum64? at isPadded
      split at isPadded <;> cases isPadded
      rfl
    have stopEq : stop = padded / alignment * alignment + count := by
      unfold sum64? at isLast
      split at isLast <;> cases isLast
      rfl
    refine ⟨?_, stopEq, by omega, Nat.dvd_mul_left _ _⟩
    have rounded := Nat.div_add_mod padded alignment
    have rest := Nat.mod_lt padded positive
    rw [Nat.mul_comm]
    omega

/-- Taking a range and writing to it leaves all that was in use. -/
theorem extends_use_write {s : Staging} {count alignment start stop : Nat}
    (range : s.IsRange count alignment start stop) (bytes : ByteArray) : ((s.use stop).write start bytes).Extends s where
  size := blit_size _ _ _ _ _
  used := by
    have behind := range.behind
    have stopEq := range.stop_eq
    simp only [write, use]
    omega
  bytes := by
    intro i bound
    have behind := range.behind
    exact byteAt_blit_outside (Or.inl (by omega))

/-- The bytes written to a range that they fill. -/
theorem byteAt_use_write {s : Staging} {count alignment start stop k : Nat}
    (range : s.IsRange count alignment start stop) {bytes : ByteArray} (size : bytes.size = count) (bound : k < count) :
    byteAt ((s.use stop).write start bytes).bytes (start + k) = byteAt bytes k := by
  have inside := range.inside
  have stopEq := range.stop_eq
  rw [write, byteAt_blit (by omega) (by rw [use]; rw [Staging.size] at inside; simp only; omega),
    if_pos (by omega)]
  congr 1
  omega

end TextureLoom.Atlas.Staging
