import TextureLoom.Proofs.Bytecode.Sites
import TextureLoom.Proofs.Compile.Soundness

set_option autoImplicit false

namespace TextureLoom.Compile

open Bytecode (Block Instr Located Operand Origin Reaches Stretch locate)
open Bytecode.Listing (Patch)

/-- A block of a draft as it is read from linked code. -/
def Draft.decoded (d : Draft) (ids : String → Nat) (index : Nat) (block : List (Instr Ref)) : Block :=
  ⟨locate (blockStart d.blocks.toList index) (block.map (·.map (Ref.linked (ranges d.blocks) ids))),
    .ok (blockStart d.blocks.toList index + blockLength block - 1)⟩

/-- Where some stretches have names. -/
def nameFields (start : Nat) (parts : List (Stretch Ref)) : List Nat := (partPatches start parts).map (·.field)

theorem lt_of_mem_nameFields {parts : List (Stretch Ref)} {field : Nat} :
    ∀ start : Nat, field ∈ nameFields start parts → start < field := by
  induction parts with
  | nil => exact fun _ member => absurd member List.not_mem_nil
  | cons part rest ih =>
    intro start member
    cases part with
    | bytes run => exact Nat.lt_of_le_of_lt (Nat.le_add_right _ _) (ih (start + run.length) member)
    | operand source =>
      cases source with
      | name text =>
        rcases List.mem_cons.mp member with rfl | later
        · exact Nat.lt_succ_self start
        · exact Nat.lt_of_le_of_lt (Nat.le_add_right _ _) (ih (start + 4) later)
      | block index => exact Nat.lt_of_le_of_lt (Nat.le_add_right _ _) (ih (start + 7) member)

/-- Names are far enough apart for their ids. -/
theorem nameFields_apart (parts : List (Stretch Ref)) :
    ∀ start, (nameFields start parts).Pairwise fun first second => first + 3 ≤ second := by
  induction parts with
  | nil => exact fun _ => .nil
  | cons part rest ih =>
    intro start
    cases part with
    | bytes run => exact ih (start + run.length)
    | operand source =>
      cases source with
      | name text =>
        refine .cons (fun field member => ?_) (ih (start + 4))
        have behind := lt_of_mem_nameFields (start + 4) member
        exact Nat.le_of_lt behind
      | block index => exact ih (start + 7)

theorem nameFields_append (first second : List (Stretch Ref)) (start : Nat) :
    nameFields start (first ++ second) =
      nameFields start first ++ nameFields (start + (first.map (Stretch.size Ref.size)).sum) second := by
  rw [nameFields, partPatches, Stretch.place_append, List.filterMap_append, List.map_append]
  rfl

theorem size_linked (table : Array (Nat × Nat)) (ids : String → Nat) :
    Origin.size ∘ Ref.linked table ids = Ref.size := by
  funext ref
  rw [Function.comp_apply, ← Origin.encode_length, isSized_linked]

/-- The names of an instruction are where its texture ids are read. -/
theorem fields_linked (table : Array (Nat × Nat)) (ids : String → Nat) (i : Instr Ref) (start : Nat) :
    ((i.map (Ref.linked table ids)).place Origin.size Operand.at start).fields = nameFields start i.parts := by
  rw [Instr.place_map, size_linked, Instr.fields, Instr.sources_place]
  generalize i.parts = parts
  induction parts generalizing start with
  | nil => rfl
  | cons part rest ih =>
    cases part with
    | bytes run => exact ih (start + run.length)
    | operand source =>
      cases source with
      | name text => exact congrArg (List.cons (start + 1)) (ih (start + 4))
      | block index => exact ih (start + 7)

theorem mem_nameFields_locate {table : Array (Nat × Nat)} {ids : String → Nat} {field : Nat}
    {block : List (Instr Ref)} :
    ∀ {start : Nat}, field ∈ nameFields start (block.flatMap Instr.parts) ↔
      ∃ l ∈ locate start (block.map (·.map (Ref.linked table ids))), field ∈ l.instr.fields := by
  induction block with
  | nil => simp [nameFields, partPatches, Stretch.place, locate]
  | cons i rest ih =>
    intro start
    have length : (i.map (Ref.linked table ids)).encode.length = (i.parts.map (Stretch.size Ref.size)).sum := by
      rw [Instr.encode_map_length (isSized_linked table ids), Instr.length_eq_sum]
    rw [List.flatMap_cons, nameFields_append, List.mem_append, List.map_cons, locate, List.exists_mem_cons_iff, length,
      ih, fields_linked]

/-- The names of a program are those of its blocks. -/
theorem mem_nameFields_programParts {field : Nat} (blocks : List (List (Instr Ref))) :
    ∀ start, field ∈ nameFields start (programParts blocks) ↔ ∃ index block, blocks[index]? = some block ∧
      field ∈ nameFields (start + blockStart blocks index) (block.flatMap Instr.parts) := by
  induction blocks with
  | nil => simp [programParts, nameFields, partPatches, Stretch.place]
  | cons first rest ih =>
    intro start
    have ends : nameFields (start + ((first.flatMap Instr.parts).map (Stretch.size Ref.size)).sum)
        [.bytes [Bytecode.finishCode]] = [] := rfl
    have length : ((blockParts first).map (Stretch.size Ref.size)).sum = blockLength first := by
      rw [← partBytes_length (isSized_origin #[]), partBytes_blockParts_length (isSized_origin #[])]
    rw [programParts, List.flatMap_cons, nameFields_append, List.mem_append, length, ← programParts, ih]
    rw [blockParts, nameFields_append, ends, List.append_nil]
    constructor
    · rintro (here | ⟨index, block, found, member⟩)
      · exact ⟨0, first, rfl, by rwa [blockStart_zero]⟩
      · refine ⟨index + 1, block, found, ?_⟩
        rw [blockStart, List.take_succ_cons, List.map_cons, List.sum_cons, ← Nat.add_assoc]
        exact member
    · rintro ⟨index, block, found, member⟩
      cases index with
      | zero =>
        cases found
        rw [blockStart_zero] at member
        exact .inl member
      | succ index =>
        refine .inr ⟨index, block, found, ?_⟩
        rw [blockStart, List.take_succ_cons, List.map_cons, List.sum_cons, ← Nat.add_assoc] at member
        exact member

section

variable {d : Draft} {jobs : List Job} {p : Pipeline} {ids : String → Nat} {code : Array UInt8}

/-- What linked code reaches are the blocks of its draft. -/
theorem IsLinked.exists_of_reaches (linked : IsLinked d ids code) (isDraft : Draft.IsDraftOf d jobs p)
    {range : Nat × Nat} (reaches : Reaches code range) :
    ∃ index job block, IsBlockOf jobs index job block ∧ d.blocks[index]? = some block ∧
      Block.within code range = d.decoded ids index block := by
  induction reaches with
  | whole =>
    obtain ⟨block, found, listed, isBlock⟩ := exists_block isDraft isDraft.first
    have inside := blockStart_add_le_sum listed
    rw [← linked.size_eq] at inside
    have decoded := linked.block_of isDraft found inside
    rw [blockStart_zero] at decoded
    refine ⟨0, _, block, isBlock, found, ?_⟩
    rw [← Block.of_whole, decoded, Draft.decoded, blockStart_zero]
  | named _ named ih =>
    obtain ⟨index, job, block, isBlock, found, same⟩ := ih
    rw [same] at named
    obtain ⟨l, member, named⟩ := named
    obtain ⟨inner, nestedJob, nestedBlock, isNested, -, nestedFound, rfl⟩ :=
      IsLinked.range_of_mem isDraft isBlock member named
    obtain ⟨_, same, -, nestedIsBlock⟩ := exists_block isDraft isNested
    cases nestedFound.symm.trans same
    have decoded := linked.block_of isDraft nestedFound (Nat.le_refl _)
    exact ⟨inner, nestedJob, nestedBlock, nestedIsBlock, nestedFound, decoded⟩

/-- Each block of the draft is reached. -/
theorem IsLinked.exists_reaches (linked : IsLinked d ids code) (isDraft : Draft.IsDraftOf d jobs p) (index : Nat) :
    ∀ {block : List (Instr Ref)}, d.blocks[index]? = some block →
      ∃ range, Reaches code range ∧ Block.within code range = d.decoded ids index block := by
  -- The block that a block is named in has a smaller number.
  induction index using Nat.strongRecOn with
  | ind index ih =>
    intro block found
    obtain ⟨bound, -⟩ := Array.getElem?_eq_some_iff.mp found
    have numbered : index ∈ 0 :: d.blocks.toList.flatMap numbersIn := by
      rw [isDraft.numbers, List.mem_range'_1]
      omega
    rcases List.mem_cons.mp numbered with rfl | isNested
    · obtain ⟨_, same, listed, -⟩ := exists_block isDraft isDraft.first
      cases found.symm.trans same
      have inside := blockStart_add_le_sum listed
      rw [← linked.size_eq] at inside
      have decoded := linked.block_of isDraft found inside
      refine ⟨_, .whole, ?_⟩
      rw [blockStart_zero] at decoded
      rw [← Block.of_whole, decoded, Draft.decoded, blockStart_zero]
    · obtain ⟨outer, isOuter, isNumber⟩ := List.mem_flatMap.mp isNested
      obtain ⟨before, outerFound⟩ := List.mem_iff_getElem?.mp isOuter
      rw [Array.getElem?_toList] at outerFound
      obtain ⟨job, isBlock⟩ := isDraft.drafted before outer outerFound
      obtain ⟨i, inOuter, isSource⟩ := List.mem_flatMap.mp isNumber
      obtain ⟨ref, isSource, number⟩ := List.mem_filterMap.mp isSource
      cases ref with
      | name text => cases number
      | block inner =>
        cases number
        obtain ⟨range, reaches, same⟩ := ih before (isBlock.nested i inOuter index isSource).1 outerFound
        have listed : (blockStart d.blocks.toList index, blockLength block) ∈
            Bytecode.blockRanges (d.decoded ids before outer).instrs := by
          rw [Draft.decoded, blockRanges_eq, List.mem_map]
          refine ⟨index, isNumber, ?_⟩
          rw [Array.getD_eq_getD_getElem?, ranges_getElem?, found, Option.map_some, Option.getD_some]
        obtain ⟨l, member, named⟩ := List.mem_flatMap.mp listed
        exact ⟨_, .named reaches ⟨l, same ▸ member, named⟩, linked.block_of isDraft found (Nat.le_refl _)⟩

/-- The names of a draft are the sites of its code. -/
theorem IsLinked.textureSites_eq (linked : IsLinked d ids code) (isDraft : Draft.IsDraftOf d jobs p) :
    Bytecode.textureSites code = .ok (nameFields 0 (programParts d.blocks.toList)) := by
  obtain ⟨sites, found⟩ := linked.exists_sites isDraft
  have ascends := (nameFields_apart (programParts d.blocks.toList) 0).imp fun {first second} le =>
    (show first < second by omega)
  rw [found, eq_of_ascends (Bytecode.ascends_sites found) ascends]
  intro field
  rw [Bytecode.mem_sites found, mem_nameFields_programParts]
  constructor
  · rintro ⟨range, reaches, l, member, isField⟩
    obtain ⟨index, job, block, -, isBlock, same⟩ := linked.exists_of_reaches isDraft reaches
    rw [same] at member
    refine ⟨index, block, by rwa [Array.getElem?_toList], ?_⟩
    rw [Nat.zero_add, mem_nameFields_locate]
    exact ⟨l, member, isField⟩
  · rintro ⟨index, block, isBlock, isField⟩
    rw [Array.getElem?_toList] at isBlock
    obtain ⟨range, reaches, same⟩ := linked.exists_reaches isDraft index isBlock
    rw [Nat.zero_add, mem_nameFields_locate] at isField
    exact ⟨range, reaches, same ▸ isField⟩

theorem blockStart_add_le {blocks : List (List (Instr Ref))} {index later : Nat} {block : List (Instr Ref)}
    (found : blocks[index]? = some block) (less : index < later) (bound : later ≤ blocks.length) :
    blockStart blocks index + blockLength block ≤ blockStart blocks later := by
  rw [← blockStart_succ found]
  rcases Nat.lt_or_eq_of_le less with before | rfl
  · exact Nat.le_of_lt (blockStart_lt before bound)
  · exact Nat.le_refl _

/-- The ids of linked code are apart from what else it reads. -/
theorem IsLinked.separate (linked : IsLinked d ids code) (isDraft : Draft.IsDraftOf d jobs p) :
    Bytecode.Separate code := by
  intro sites found range reaches
  obtain ⟨index, job, block, -, isBlock, same⟩ := linked.exists_of_reaches isDraft reaches
  have decoded := linked.block_of isDraft isBlock (Nat.le_refl _)
  have ends := congrArg Block.finish decoded
  rw [same, Draft.decoded, ← decoded]
  refine Block.clear_of_finish ends fun field isSite => ?_
  obtain ⟨other, reachesOther, l, member, isField⟩ := (Bytecode.mem_sites found).mp isSite
  obtain ⟨otherIndex, _, otherBlock, -, isOther, otherSame⟩ := linked.exists_of_reaches isDraft reachesOther
  have otherDecoded := linked.block_of isDraft isOther (Nat.le_refl _)
  rw [otherSame, Draft.decoded, ← otherDecoded] at member
  obtain ⟨⟨o, reads⟩, begins, stops⟩ := Block.exists_reads (congrArg Block.finish otherDecoded) member
  obtain ⟨above, below⟩ := reads.field_inside isField
  have nonempty := blockLength_pos block
  have otherNonempty := blockLength_pos otherBlock
  have listed : d.blocks.toList[index]? = some block := by rwa [Array.getElem?_toList]
  have otherListed : d.blocks.toList[otherIndex]? = some otherBlock := by rwa [Array.getElem?_toList]
  rcases Nat.lt_trichotomy index otherIndex with before | rfl | behind
  · have apart := blockStart_add_le listed before (Nat.le_of_lt (List.getElem?_eq_some_iff.mp otherListed).1)
    exact .inr (.inl (by omega))
  · cases isBlock.symm.trans isOther
    exact .inl ⟨l, member, isField⟩
  · have apart := blockStart_add_le otherListed behind (Nat.le_of_lt (List.getElem?_eq_some_iff.mp listed).1)
    exact .inr (.inr (by omega))

end

end TextureLoom.Compile
