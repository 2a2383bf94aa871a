import TextureLoom.Atlas.Slot
import TextureLoom.Proofs.Bytes

set_option autoImplicit false

namespace TextureLoom.Bytes

/-- `add` puts `length` more bytes at the end, `piece` giving each of them. -/
def Appends (add : ByteArray → ByteArray) (length : Nat) (piece : Nat → UInt8) : Prop :=
  ∀ out, (add out).size = out.size + length ∧
    ∀ i, byteAt (add out) i = if out.size ≤ i ∧ i < out.size + length then piece (i - out.size) else byteAt out i

theorem appends_pushTexel (source : ByteArray) (start : Nat) :
    Appends (pushTexel source start) 4 fun k => byteAt source (start + k) :=
  fun out => ⟨pushTexel_size source start out, byteAt_pushTexel source start out⟩

theorem appends_append {bytes : ByteArray} {length : Nat} (size : bytes.size = length) :
    Appends (fun out => out ++ bytes) length (byteAt bytes) := by
  intro out
  refine ⟨by rw [ByteArray.size_append, size], ?_⟩
  intro i
  split
  · rename_i inside
    obtain ⟨k, rfl⟩ := Nat.exists_eq_add_of_le inside.1
    rw [byteAt_append_right, Nat.add_sub_cancel_left]
  · by_cases before : i < out.size
    · exact byteAt_append_left _ before
    · have past : (out ++ bytes).size ≤ i := by
        rw [ByteArray.size_append]
        omega
      rw [byteAt_of_le past, byteAt_of_le (by omega)]

/-- Appending pieces of one length one behind the other. -/
theorem appends_fold {count length : Nat} {add : Nat → ByteArray → ByteArray} {piece : Nat → Nat → UInt8}
    (appends : ∀ y < count, Appends (add y) length (piece y)) :
    Appends (fun out => count.fold (fun y _ out => add y out) out) (count * length) fun i =>
      piece (i / length) (i % length) := by
  induction count with
  | zero =>
    intro out
    refine ⟨by simp, ?_⟩
    intro i
    rw [if_neg (by omega)]
    rfl
  | succ count ih =>
    intro out
    obtain ⟨size, bytes⟩ := ih (fun y less => appends y (by omega)) out
    obtain ⟨lastSize, lastBytes⟩ := appends count (by omega) (count.fold (fun y _ out => add y out) out)
    simp only [Nat.fold_succ]
    refine ⟨by rw [lastSize, size, Nat.succ_mul, Nat.add_assoc], ?_⟩
    intro i
    rw [lastBytes, size, bytes, Nat.succ_mul]
    by_cases last : out.size + count * length ≤ i ∧ i < out.size + count * length + length
    · obtain ⟨k, rfl⟩ := Nat.exists_eq_add_of_le last.1
      obtain ⟨row, column⟩ := row_div_mod count (show k < length by omega)
      rw [if_pos last, if_pos (by omega), Nat.add_sub_cancel_left, Nat.add_assoc, Nat.add_sub_cancel_left, row, column]
    · rw [if_neg last]
      by_cases earlier : out.size ≤ i ∧ i < out.size + count * length
      · rw [if_pos earlier, if_pos (by omega)]
      · rw [if_neg earlier, if_neg (by omega)]

theorem fold_size {count length : Nat} {add : Nat → ByteArray → ByteArray} {piece : Nat → Nat → UInt8}
    (appends : ∀ y < count, Appends (add y) length (piece y)) :
    (count.fold (fun y _ out => add y out) ByteArray.empty).size = count * length := by
  have whole := (appends_fold appends ByteArray.empty).1
  simpa using whole

/-- A byte of pieces of one length put together from nothing. -/
theorem byteAt_fold {count length row k : Nat} {add : Nat → ByteArray → ByteArray} {piece : Nat → Nat → UInt8}
    (appends : ∀ y < count, Appends (add y) length (piece y)) (inRange : row < count) (inRow : k < length) :
    byteAt (count.fold (fun y _ out => add y out) ByteArray.empty) (row * length + k) = piece row k := by
  have bound := row_bound inRange inRow
  obtain ⟨rowEq, column⟩ := row_div_mod row inRow
  have whole := (appends_fold appends ByteArray.empty).2 (row * length + k)
  simp only [ByteArray.size_empty, Nat.zero_le, Nat.zero_add, bound, and_self, ↓reduceIte, Nat.sub_zero, rowEq,
    column] at whole
  exact whole

end TextureLoom.Bytes

namespace TextureLoom.Atlas.Texture

open Bytes

/-- The bytes of a texel of the texture with its edge repeated around it. -/
def paddedTexel (t : Texture) (padding x y : Nat) : List UInt8 :=
  texelAt t.bytes ((inner padding t.height y * t.width + inner padding t.width x) * 4)

theorem appends_paddedRow (t : Texture) (padding y : Nat) :
    Appends (fun out => (t.width + 2 * padding).fold (fun x _ out =>
        pushTexel t.bytes ((inner padding t.height y * t.width + inner padding t.width x) * 4) out) out)
      ((t.width + 2 * padding) * 4) fun i =>
        byteAt t.bytes ((inner padding t.height y * t.width + inner padding t.width (i / 4)) * 4 + i % 4) :=
  appends_fold fun _ _ => appends_pushTexel t.bytes _

theorem padded_size (t : Texture) (padding : Nat) :
    (t.padded padding).size = (t.width + 2 * padding) * (t.height + 2 * padding) * 4 := by
  rw [padded, fold_size fun y _ => appends_paddedRow t padding y, ← Nat.mul_assoc,
    Nat.mul_comm (t.height + 2 * padding)]

/-- The padded bytes are those of the padded texels, row by row. -/
theorem byteAt_padded (t : Texture) {padding x y k : Nat} (column : x < t.width + 2 * padding)
    (row : y < t.height + 2 * padding) (channel : k < 4) :
    byteAt (t.padded padding) ((y * (t.width + 2 * padding) + x) * 4 + k) =
      byteAt t.bytes ((inner padding t.height y * t.width + inner padding t.width x) * 4 + k) := by
  have position : (y * (t.width + 2 * padding) + x) * 4 + k = y * ((t.width + 2 * padding) * 4) + (x * 4 + k) := by
    rw [Nat.add_mul, Nat.mul_assoc, Nat.add_assoc]
  obtain ⟨texel, rest⟩ := row_div_mod x channel
  rw [padded, position, byteAt_fold (fun y _ => appends_paddedRow t padding y) row (row_bound column channel), texel,
    rest]

/-- The bytes of a texture are those of the rows that it was made of. -/
theorem byteAt_ofRows {width height pitch x y k : Nat} {rows : ByteArray}
    (enough : pitch * (height - 1) + width * 4 ≤ rows.size) (column : x < width) (row : y < height)
    (channel : k < 4) :
    byteAt (ofRows width height pitch rows).bytes ((y * width + x) * 4 + k) = byteAt rows (y * pitch + x * 4 + k) := by
  have position : (y * width + x) * 4 + k = y * (width * 4) + (x * 4 + k) := by
    rw [Nat.add_mul, Nat.mul_assoc, Nat.add_assoc]
  have appends : ∀ y < height, Appends (fun out => out ++ rows.extract (y * pitch) (y * pitch + width * 4)) (width * 4)
      (byteAt (rows.extract (y * pitch) (y * pitch + width * 4))) := by
    intro y less
    have last : y * pitch ≤ pitch * (height - 1) := by
      rw [Nat.mul_comm]
      exact Nat.mul_le_mul_left pitch (by omega)
    apply appends_append
    rw [ByteArray.size_extract]
    omega
  have inRow := row_bound column channel
  rw [ofRows, position, byteAt_fold appends row inRow, byteAt_extract (by omega), Nat.add_assoc]

end TextureLoom.Atlas.Texture
