import TextureLoom.Program
import TextureLoom.Proofs.Bytecode.Decoding
import TextureLoom.Proofs.Compile.Drafting

set_option autoImplicit false

namespace TextureLoom.Compile

open Bytecode (Block Instr Origin Stretch finishCode limit24)
open Bytecode.Listing (Patch)

/-- The stretches of a block, its end included. -/
def blockParts (block : List (Instr Ref)) : List (Stretch Ref) := block.flatMap Instr.parts ++ [.bytes [finishCode]]

/-- The stretches of a program. -/
def programParts (blocks : List (List (Instr Ref))) : List (Stretch Ref) := blocks.flatMap blockParts

/-- The bytes of some stretches. -/
def partBytes (origin : Ref → Origin) (parts : List (Stretch Ref)) : List UInt8 :=
  parts.flatMap (Stretch.encode fun r => (origin r).encode)

theorem partBytes_append (origin : Ref → Origin) (first second : List (Stretch Ref)) :
    partBytes origin (first ++ second) = partBytes origin first ++ partBytes origin second := List.flatMap_append

/-- The names in some stretches that start at an offset, with their fields. -/
def partPatches (start : Nat) (parts : List (Stretch Ref)) : List Patch :=
  (Stretch.place Ref.size Prod.mk start parts).filterMap patch?

/-- What an operand is written as once names have ids. -/
def Ref.linked (table : Array (Nat × Nat)) (ids : String → Nat) : Ref → Origin
  | .name text => .texture (ids text)
  | .block index => (Ref.block index).origin table

/-- A way to write operands that keeps to the sizes of the draft. -/
def IsSized (origin : Ref → Origin) : Prop := ∀ r, (origin r).encode.length = r.size

theorem isSized_origin (table : Array (Nat × Nat)) : IsSized (Ref.origin table) := by
  intro r
  cases r <;> simp [Ref.origin, Ref.size, Origin.size]

theorem isSized_linked (table : Array (Nat × Nat)) (ids : String → Nat) : IsSized (Ref.linked table ids) := by
  intro r
  cases r <;> simp [Ref.linked, Ref.origin, Ref.size, Origin.size]

theorem partBytes_length {origin : Ref → Origin} (sized : IsSized origin) (parts : List (Stretch Ref)) :
    (partBytes origin parts).length = (parts.map (Stretch.size Ref.size)).sum := Stretch.encode_length sized parts

theorem partBytes_block (origin : Ref → Origin) (block : List (Instr Ref)) :
    partBytes origin (blockParts block) = (block.map (·.map origin)).flatMap Instr.encode ++ [finishCode] := by
  rw [blockParts, partBytes_append]
  congr 1
  induction block with
  | nil => rfl
  | cons i rest ih =>
    rw [List.flatMap_cons, partBytes_append, ih, List.map_cons, List.flatMap_cons, Instr.encode_map]
    rfl

theorem partBytes_blockParts_length {origin : Ref → Origin} (sized : IsSized origin) (block : List (Instr Ref)) :
    (partBytes origin (blockParts block)).length = blockLength block := by
  rw [blockLength_eq_sum, partBytes_block, List.length_append, List.length_singleton]
  congr 1
  induction block with
  | nil => rfl
  | cons i rest ih =>
    rw [List.map_cons, List.flatMap_cons, List.length_append, ih, Instr.encode_map_length sized, List.map_cons,
      List.sum_cons]

theorem partBytes_programParts_length {origin : Ref → Origin} (sized : IsSized origin)
    (blocks : List (List (Instr Ref))) :
    (partBytes origin (programParts blocks)).length = (blocks.map blockLength).sum := by
  induction blocks with
  | nil => rfl
  | cons block rest ih =>
    rw [programParts, List.flatMap_cons, partBytes_append, List.length_append, partBytes_blockParts_length sized,
      List.map_cons, List.sum_cons, ← ih, programParts]

namespace Compiled

/-- The bytes and patches are those of the stretches. -/
structure Consists (table : Array (Nat × Nat)) (c : Compiled) (parts : List (Stretch Ref)) : Prop where
  code : c.code.toList = partBytes (Ref.origin table) parts
  patches : c.patches.toList = partPatches 0 parts

theorem Consists.append {table : Array (Nat × Nat)} {c : Compiled} {parts more : List (Stretch Ref)}
    (consists : Consists table c parts) {code : Array UInt8} {patches : Array Patch}
    (codeAdds : code.toList = c.code.toList ++ partBytes (Ref.origin table) more)
    (patchesAdd : patches.toList = c.patches.toList ++ partPatches c.code.size more) :
    Consists table ⟨code, patches⟩ (parts ++ more) where
  code := by rw [codeAdds, consists.code, partBytes_append]
  patches := by
    have size : c.code.size = 0 + (parts.map (Stretch.size Ref.size)).sum := by
      rw [← Array.length_toList, consists.code, partBytes_length (isSized_origin table), Nat.zero_add]
    rw [patchesAdd, consists.patches, size, partPatches, partPatches, partPatches, Stretch.place_append,
      List.filterMap_append]

theorem Consists.addInstr {table : Array (Nat × Nat)} {c : Compiled} {parts : List (Stretch Ref)}
    (consists : Consists table c parts) (i : Instr Ref) : Consists table (c.addInstr table i) (parts ++ i.parts) := by
  apply consists.append
  · simp only [Array.toList_appendList, Instr.encode_map, partBytes]
  · simp only [Array.toList_appendList, Instr.sources_place, partPatches]

theorem Consists.foldl_addInstr {table : Array (Nat × Nat)} (block : List (Instr Ref)) :
    ∀ {c : Compiled} {parts : List (Stretch Ref)}, Consists table c parts →
      Consists table (block.foldl (Compiled.addInstr table) c) (parts ++ block.flatMap Instr.parts) := by
  induction block with
  | nil =>
    intro c parts consists
    simpa using consists
  | cons i rest ih =>
    intro c parts consists
    rw [List.flatMap_cons, ← List.append_assoc]
    exact ih (consists.addInstr i)

theorem Consists.addBlock {table : Array (Nat × Nat)} {c : Compiled} {parts : List (Stretch Ref)}
    (consists : Consists table c parts) (block : List (Instr Ref)) :
    Consists table (c.addBlock table block) (parts ++ blockParts block) := by
  rw [blockParts, ← List.append_assoc]
  apply (Consists.foldl_addInstr block consists).append
  · simp [partBytes, Stretch.encode]
  · simp [partPatches, Stretch.place]

/-- A compiled draft consists of the stretches of its blocks. -/
theorem consists_ofDraft (d : Draft) :
    Consists (ranges d.blocks) (ofDraft d) (programParts d.blocks.toList) := by
  have fold : ∀ (table : Array (Nat × Nat)) (blocks : List (List (Instr Ref))) {c : Compiled}
      {parts : List (Stretch Ref)}, Consists table c parts →
        Consists table (blocks.foldl (Compiled.addBlock table) c) (parts ++ programParts blocks) := by
    intro table blocks
    induction blocks with
    | nil =>
      intro c parts consists
      simpa [programParts] using consists
    | cons block rest ih =>
      intro c parts consists
      rw [programParts, List.flatMap_cons, ← List.append_assoc]
      exact ih (consists.addBlock block)
  rw [ofDraft, ← Array.foldl_toList]
  have none : Consists (ranges d.blocks) ⟨#[], #[]⟩ [] := ⟨rfl, rfl⟩
  exact fold _ _ none

end Compiled

/-- Offset of a block when blocks follow each other. -/
def blockStart (blocks : List (List (Instr Ref))) (index : Nat) : Nat := ((blocks.take index).map blockLength).sum

theorem blockStart_zero (blocks : List (List (Instr Ref))) : blockStart blocks 0 = 0 := by simp [blockStart]

theorem blockStart_succ {blocks : List (List (Instr Ref))} {index : Nat} {block : List (Instr Ref)}
    (found : blocks[index]? = some block) :
    blockStart blocks (index + 1) = blockStart blocks index + blockLength block := by
  obtain ⟨bound, rfl⟩ := List.getElem?_eq_some_iff.mp found
  rw [blockStart, List.take_succ_eq_append_getElem bound, List.map_append, List.sum_append]
  simp [blockStart]

theorem blockLength_pos (block : List (Instr Ref)) : 0 < blockLength block := by
  rw [blockLength_eq_sum]
  omega

theorem blockStart_le_sum (blocks : List (List (Instr Ref))) (index : Nat) :
    blockStart blocks index ≤ (blocks.map blockLength).sum := by
  have split := congrArg (fun l => (l.map blockLength).sum) (List.take_append_drop index blocks)
  simp only [List.map_append, List.sum_append] at split
  rw [blockStart]
  omega

theorem blockStart_add_le_sum {blocks : List (List (Instr Ref))} {index : Nat} {block : List (Instr Ref)}
    (found : blocks[index]? = some block) :
    blockStart blocks index + blockLength block ≤ (blocks.map blockLength).sum := by
  rw [← blockStart_succ found]
  exact blockStart_le_sum blocks (index + 1)

/-- Blocks with later numbers start later. -/
theorem blockStart_lt {blocks : List (List (Instr Ref))} {index later : Nat} (less : index < later)
    (bound : later ≤ blocks.length) : blockStart blocks index < blockStart blocks later := by
  induction later with
  | zero => omega
  | succ later ih =>
    have found := List.getElem?_eq_getElem (show later < blocks.length by omega)
    have next := blockStart_succ found
    have some := blockLength_pos blocks[later]
    rcases Nat.lt_succ_iff_lt_or_eq.mp less with before | rfl
    · have earlier := ih before (by omega)
      omega
    · omega

theorem ranges_getElem? (blocks : Array (List (Instr Ref))) (index : Nat) :
    (ranges blocks)[index]? =
      (blocks[index]?).map fun block => (blockStart blocks.toList index, blockLength block) := by
  have fold : ∀ (rest : List (List (Instr Ref))) (done : Array (Nat × Nat)) (start index : Nat),
      ((rest.foldl (fun acc block => (acc.1.push (acc.2, blockLength block), acc.2 + blockLength block))
          (done, start)).1)[index]? =
        if index < done.size then done[index]?
        else (rest[index - done.size]?).map fun block =>
          (start + blockStart rest (index - done.size), blockLength block) := by
    intro rest
    induction rest with
    | nil =>
      intro done start index
      split
      · rfl
      · simp only [List.foldl_nil, List.getElem?_nil, Option.map_none]
        exact Array.getElem?_eq_none (by omega)
    | cons block rest ih =>
      intro done start index
      rw [List.foldl_cons, ih, Array.size_push]
      simp only
      by_cases before : index < done.size
      · rw [if_pos (by omega), if_pos before, Array.getElem?_push_lt before, Array.getElem?_eq_getElem before]
      · rw [if_neg before]
        by_cases here : index = done.size
        · subst here
          rw [if_pos (by omega), Array.getElem?_push_size]
          simp [blockStart]
        · obtain ⟨offset, behind⟩ := Nat.exists_eq_add_of_lt (show done.size < index by omega)
          rw [if_neg (by omega), show index - done.size = offset + 1 by omega,
            show index - (done.size + 1) = offset by omega, List.getElem?_cons_succ]
          simp only [blockStart, List.take_succ_cons, List.map_cons, List.sum_cons, Nat.add_assoc]
  have whole := fold blocks.toList #[] 0 index
  simp only [Array.size_empty, Nat.not_lt_zero, ↓reduceIte, Nat.sub_zero, Nat.zero_add, Array.getElem?_toList] at whole
  rw [ranges, ← Array.foldl_toList]
  exact whole

/-- The operand of a numbered block is the range of that block. -/
theorem origin_block {blocks : Array (List (Instr Ref))} {index : Nat} {block : List (Instr Ref)}
    (found : blocks[index]? = some block) :
    (Ref.block index).origin (ranges blocks) = .block (blockStart blocks.toList index) (blockLength block) := by
  have range := ranges_getElem? blocks index
  rw [found, Option.map_some] at range
  simp only [Ref.origin, Array.getD_eq_getD_getElem?, range, Option.getD_some]

end TextureLoom.Compile
