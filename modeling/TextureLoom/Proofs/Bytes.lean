import Mathlib.Algebra.GroupWithZero.Nat
import TextureLoom.Bytes

set_option autoImplicit false

namespace TextureLoom.Bytes

theorem byteAt_of_le {bytes : ByteArray} {i : Nat} (past : bytes.size ≤ i) : byteAt bytes i = 0 := by
  rw [byteAt, dif_neg (Nat.not_lt.mpr past)]

theorem byteAt_append_left {first : ByteArray} (second : ByteArray) {i : Nat} (bound : i < first.size) :
    byteAt (first ++ second) i = byteAt first i := by
  rw [byteAt, byteAt, dif_pos bound, dif_pos (by rw [ByteArray.size_append]; omega), ByteArray.getElem_append_left]

theorem byteAt_append_right (first second : ByteArray) (i : Nat) :
    byteAt (first ++ second) (first.size + i) = byteAt second i := by
  by_cases bound : i < second.size
  · rw [byteAt, byteAt, dif_pos bound, dif_pos (by rw [ByteArray.size_append]; omega),
      ByteArray.getElem_append_right (by omega)]
    simp
  · rw [byteAt_of_le (Nat.not_lt.mp bound), byteAt_of_le (by rw [ByteArray.size_append]; omega)]

theorem byteAt_extract {bytes : ByteArray} {start stop i : Nat} (inside : start + i < stop) :
    byteAt (bytes.extract start stop) i = byteAt bytes (start + i) := by
  by_cases bound : start + i < bytes.size
  · rw [byteAt, byteAt, dif_pos bound, dif_pos (by rw [ByteArray.size_extract]; omega), ByteArray.getElem_extract]
  · rw [byteAt_of_le (Nat.not_lt.mp bound), byteAt_of_le (by rw [ByteArray.size_extract]; omega)]

theorem zeros_data (count : Nat) : (zeros count).data = Array.replicate count 0 := by
  induction count using Nat.strongRecOn with
  | ind count ih =>
    unfold zeros
    split
    · simp [*]
    · have half := ih (count / 2) (by omega)
      simp only
      split
      · rw [ByteArray.data_append, half, Array.replicate_append_replicate]
        congr 1
        omega
      · rw [ByteArray.data_push, ByteArray.data_append, half, Array.replicate_append_replicate,
          ← Array.replicate_succ]
        congr 1
        omega

@[simp] theorem zeros_size (count : Nat) : (zeros count).size = count := by
  rw [← ByteArray.size_data, zeros_data, Array.size_replicate]

@[simp] theorem byteAt_zeros (count i : Nat) : byteAt (zeros count) i = 0 := by
  unfold byteAt
  split
  · rw [ByteArray.getElem_eq_getElem_data]
    simp [zeros_data]
  · rfl

@[simp] theorem blit_size (source : ByteArray) (start : Nat) (target : ByteArray) (offset count : Nat) :
    (blit source start target offset count).size = target.size := by
  unfold blit
  split
  · rename_i inside
    rw [ByteArray.copySlice_eq_append]
    simp only [ByteArray.size_append, ByteArray.size_extract, ByteArray.size_data]
    omega
  · rfl

/-- A copy in range changes the bytes that it covers to those copied. -/
theorem byteAt_blit {source target : ByteArray} {start offset count : Nat} (has : start + count ≤ source.size)
    (takes : offset + count ≤ target.size) (i : Nat) :
    byteAt (blit source start target offset count) i =
      if offset ≤ i ∧ i < offset + count then byteAt source (start + (i - offset)) else byteAt target i := by
  have sizes : (target.extract 0 offset ++ source.extract start (start + count)).size = offset + count := by
    rw [ByteArray.size_append, ByteArray.size_extract, ByteArray.size_extract]
    omega
  have front : (target.extract 0 offset).size = offset := by
    rw [ByteArray.size_extract]
    omega
  rw [blit, if_pos ⟨has, takes⟩, ByteArray.copySlice_eq_append]
  split
  · rename_i inside
    rw [byteAt_append_left _ (by omega)]
    have position : i = (target.extract 0 offset).size + (i - offset) := by omega
    rw [position, byteAt_append_right, byteAt_extract (by omega), front]
    congr 1
    omega
  · rename_i outside
    by_cases before : i < offset
    · rw [byteAt_append_left _ (by omega), byteAt_append_left _ (by omega), byteAt_extract (by omega), Nat.zero_add]
    · have position : i = (target.extract 0 offset ++ source.extract start (start + count)).size +
          (i - (offset + count)) := by omega
      have taken : min count (source.data.size - start) = count := by
        rw [ByteArray.size_data]
        omega
      conv => lhs; rw [position]
      rw [byteAt_append_right, taken]
      by_cases bound : i < target.size
      · rw [byteAt_extract (by rw [ByteArray.size_data]; omega)]
        congr 1
        omega
      · rw [byteAt_of_le (by rw [ByteArray.size_extract, ByteArray.size_data]; omega), byteAt_of_le (by omega)]

/-- A copy out of range changes nothing. -/
theorem byteAt_blit_outside {source target : ByteArray} {start offset count i : Nat}
    (outside : i < offset ∨ offset + count ≤ i) :
    byteAt (blit source start target offset count) i = byteAt target i := by
  by_cases inRange : start + count ≤ source.size ∧ offset + count ≤ target.size
  · rw [byteAt_blit inRange.1 inRange.2, if_neg (by omega)]
  · rw [blit, if_neg inRange]

@[simp] theorem pushTexel_size (source : ByteArray) (start : Nat) (bytes : ByteArray) :
    (pushTexel source start bytes).size = bytes.size + 4 := by
  simp [pushTexel]

theorem byteAt_push (bytes : ByteArray) (b : UInt8) (i : Nat) :
    byteAt (bytes.push b) i = if i = bytes.size then b else byteAt bytes i := by
  unfold byteAt
  by_cases last : i = bytes.size
  · subst last
    rw [dif_pos (by rw [ByteArray.size_push]; omega), if_pos rfl, ByteArray.getElem_eq_getElem_data]
    exact Array.getElem_push_eq
  · rw [if_neg last]
    by_cases bound : i < bytes.size
    · rw [dif_pos bound, dif_pos (by rw [ByteArray.size_push]; omega)]
      simp [ByteArray.getElem_eq_getElem_data, Array.getElem_push, ByteArray.size_data, bound]
    · rw [dif_neg bound, dif_neg (by rw [ByteArray.size_push]; omega)]

theorem byteAt_pushTexel (source : ByteArray) (start : Nat) (bytes : ByteArray) (i : Nat) :
    byteAt (pushTexel source start bytes) i =
      if bytes.size ≤ i ∧ i < bytes.size + 4 then byteAt source (start + (i - bytes.size)) else byteAt bytes i := by
  simp only [pushTexel, byteAt_push, ByteArray.size_push]
  split
  · rw [if_pos (by omega), show i - bytes.size = 3 by omega]
  · split
    · rw [if_pos (by omega), show i - bytes.size = 2 by omega]
    · split
      · rw [if_pos (by omega), show i - bytes.size = 1 by omega]
      · split
        · rw [if_pos (by omega), show i - bytes.size = 0 by omega, Nat.add_zero]
        · rw [if_neg (by omega)]

/-- The four bytes from `start` on. -/
def texelAt (bytes : ByteArray) (start : Nat) : List UInt8 := [0, 1, 2, 3].map fun k => byteAt bytes (start + k)

theorem texelAt_congr {bytes other : ByteArray} {start otherStart : Nat}
    (same : ∀ k < 4, byteAt bytes (start + k) = byteAt other (otherStart + k)) :
    texelAt bytes start = texelAt other otherStart := by
  rw [texelAt, texelAt]
  apply List.map_congr_left
  intro k member
  exact same k (by simp at member; omega)

theorem byteAt_of_texelAt {bytes other : ByteArray} {start otherStart k : Nat}
    (same : texelAt bytes start = texelAt other otherStart) (channel : k < 4) :
    byteAt bytes (start + k) = byteAt other (otherStart + k) := by
  simp only [texelAt, List.map_cons, List.cons.injEq] at same
  obtain ⟨first, second, third, fourth, _⟩ := same
  match k, channel with
  | 0, _ => exact first
  | 1, _ => exact second
  | 2, _ => exact third
  | 3, _ => exact fourth

theorem littleEndian_length (value count : Nat) : (littleEndian value count).length = count := by
  induction count generalizing value with
  | zero => rfl
  | succ count ih => simp only [littleEndian, List.length_cons, ih]

theorem ofLittleEndian_littleEndian (count : Nat) {value : Nat} (fits : value < 256 ^ count) :
    ofLittleEndian (littleEndian value count) = value := by
  induction count generalizing value with
  | zero =>
    rw [pow_zero, Nat.lt_one_iff] at fits
    rw [fits]
    rfl
  | succ count ih =>
    have rest : value / 256 < 256 ^ count := by
      rw [pow_succ, Nat.mul_comm] at fits
      exact Nat.div_lt_of_lt_mul fits
    simp only [littleEndian, ofLittleEndian, ih rest, Nat.toUInt8_eq, UInt8.toNat_ofNat']
    omega

theorem pushAll_size (run : List UInt8) (bytes : ByteArray) :
    (run.foldl ByteArray.push bytes).size = bytes.size + run.length := by
  induction run generalizing bytes with
  | nil => rfl
  | cons b rest ih =>
    rw [List.foldl_cons, ih, ByteArray.size_push, List.length_cons]
    omega

/-- A run of bytes put behind others. -/
theorem byteAt_pushAll (run : List UInt8) (bytes : ByteArray) (i : Nat) :
    byteAt (run.foldl ByteArray.push bytes) i = if i < bytes.size then byteAt bytes i else run.getD (i - bytes.size) 0 := by
  induction run generalizing bytes with
  | nil =>
    split
    · rfl
    · exact byteAt_of_le (Nat.not_lt.mp ‹_›)
  | cons b rest ih =>
    rw [List.foldl_cons, ih, ByteArray.size_push, byteAt_push]
    rcases Nat.lt_trichotomy i bytes.size with before | rfl | behind
    · rw [if_pos (by omega), if_pos before, if_neg (by omega)]
    · rw [if_pos (by omega), if_pos rfl, if_neg (by omega), Nat.sub_self, List.getD_cons_zero]
    · obtain ⟨k, rfl⟩ := Nat.exists_eq_add_of_lt behind
      rw [if_neg (by omega), if_neg (by omega), show bytes.size + k + 1 - (bytes.size + 1) = k by omega,
        show bytes.size + k + 1 - bytes.size = k + 1 by omega, List.getD_cons_succ]

/-- Bytes alike at all indices up to their size. -/
theorem ext_byteAt {bytes other : ByteArray} (size : bytes.size = other.size)
    (same : ∀ i < other.size, byteAt bytes i = byteAt other i) : bytes = other := by
  apply ByteArray.ext_getElem size
  intro i bound otherBound
  have equal := same i otherBound
  rwa [byteAt, byteAt, dif_pos bound, dif_pos otherBound] at equal

theorem row_bound {count length row k : Nat} (inRange : row < count) (inRow : k < length) :
    row * length + k < count * length := by
  have rows : (row + 1) * length ≤ count * length := Nat.mul_le_mul_right length inRange
  rw [Nat.succ_mul] at rows
  omega

theorem row_div_mod {length k : Nat} (row : Nat) (inRow : k < length) :
    (row * length + k) / length = row ∧ (row * length + k) % length = k := by
  rw [Nat.mul_comm]
  refine ⟨?_, ?_⟩
  · rw [Nat.mul_add_div (by omega), Nat.div_eq_of_lt inRow, Nat.add_zero]
  · rw [Nat.mul_add_mod, Nat.mod_eq_of_lt inRow]

end TextureLoom.Bytes
