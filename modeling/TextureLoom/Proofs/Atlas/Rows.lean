import TextureLoom.Atlas.Entry
import TextureLoom.Proofs.Bytes

set_option autoImplicit false

namespace TextureLoom.Atlas.Entry

open Bytes

/-- Where all pieces have the same length, each lies at a multiple of it. -/
theorem getElem?_flatMap {α β : Type} {length : Nat} (piece : α → List β) (sized : ∀ x, (piece x).length = length)
    (xs : List α) {i k : Nat} (inside : k < length) :
    (xs.flatMap piece)[length * i + k]? = xs[i]?.bind fun x => (piece x)[k]? := by
  induction xs generalizing i with
  | nil => rfl
  | cons x rest ih =>
    rw [List.flatMap_cons]
    cases i with
    | zero =>
      rw [Nat.mul_zero, Nat.zero_add, List.getElem?_append_left (by rw [sized]; exact inside)]
      rfl
    | succ i =>
      rw [List.getElem?_append_right (by rw [sized, Nat.mul_succ]; omega), sized,
        show length * (i + 1) + k - length = length * i + k by rw [Nat.mul_succ]; omega, ih]
      rfl

@[simp] theorem toBytes_length (e : Entry) : e.toBytes.length = entryBytes := by
  simp [toBytes, words, littleEndian_length, entryBytes]

theorem tableBytes_eq (entries : Array Entry) :
    tableBytes entries = (entries.toList.flatMap toBytes).foldl ByteArray.push ByteArray.empty := by
  rw [tableBytes, ← Array.foldl_toList, List.foldl_flatMap]

@[simp] theorem tableBytes_size (entries : Array Entry) : (tableBytes entries).size = entries.size * entryBytes := by
  rw [tableBytes_eq, pushAll_size, List.length_flatMap]
  simp only [toBytes_length, List.map_const', List.sum_replicate_nat, Array.length_toList, ByteArray.size_empty,
    Nat.zero_add]

theorem byteAt_tableBytes (entries : Array Entry) {i k : Nat} (bound : i < entries.size) (inside : k < entryBytes) :
    byteAt (tableBytes entries) (entryBytes * i + k) = entries[i].toBytes.getD k 0 := by
  rw [tableBytes_eq, byteAt_pushAll, ByteArray.size_empty, if_neg (Nat.not_lt_zero _), Nat.sub_zero,
    List.getD_eq_getElem?_getD, getElem?_flatMap toBytes toBytes_length _ inside]
  simp [bound, List.getD_eq_getElem?_getD]

/-- A word is read as it was written. -/
theorem wordAt_eq {bytes : ByteArray} {start index : Nat} {w : UInt32}
    (written : ∀ k < 4, byteAt bytes (start + 4 * index + k) = (littleEndian w.toNat 4).getD k 0) :
    wordAt bytes start index = w := by
  have zeroth := written 0 (by decide)
  have first := written 1 (by decide)
  have second := written 2 (by decide)
  have third := written 3 (by decide)
  have same : [byteAt bytes (start + 4 * index), byteAt bytes (start + 4 * index + 1),
      byteAt bytes (start + 4 * index + 2), byteAt bytes (start + 4 * index + 3)] = littleEndian w.toNat 4 := by
    rw [Nat.add_zero] at zeroth
    rw [zeroth, first, second, third]
    rfl
  rw [wordAt, same, ofLittleEndian_littleEndian 4 w.toNat_lt]
  exact UInt32.ofNat_toNat

/-- A row is read as it was written. -/
theorem readAt_tableBytes (entries : Array Entry) {i : Nat} (bound : i < entries.size) :
    readAt (tableBytes entries) (i * entryBytes) = entries[i] := by
  have words : ∀ index < 8, wordAt (tableBytes entries) (i * entryBytes) index = entries[i].words.getD index 0 := by
    intro index inRow
    apply wordAt_eq
    intro k inWord
    have inside : 4 * index + k < entryBytes := by
      rw [entryBytes]
      omega
    have length : entries[i].words.length = 8 := rfl
    rw [Nat.mul_comm i, Nat.add_assoc, byteAt_tableBytes entries bound inside, toBytes, List.getD_eq_getElem?_getD,
      getElem?_flatMap _ (fun w => littleEndian_length _ _) _ inWord,
      List.getD_eq_getElem?_getD, List.getD_eq_getElem?_getD, List.getElem?_eq_getElem (show index < _ by omega)]
    rfl
  rw [readAt]
  simp only [words, Nat.reduceLT]
  rfl

/-- The rows of a table come back as they were. -/
@[simp] theorem readAll_tableBytes (entries : Array Entry) : readAll (tableBytes entries) = entries.toList := by
  apply List.ext_getElem
  · simp [readAll, entryBytes]
  · intro i bound inEntries
    simp only [readAll, List.getElem_map, List.getElem_range]
    exact readAt_tableBytes entries inEntries

end TextureLoom.Atlas.Entry
