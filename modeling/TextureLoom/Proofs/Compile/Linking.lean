import TextureLoom.Proofs.Compile.Placing

set_option autoImplicit false

namespace TextureLoom.Compile

open Bytecode (Block Instr Origin Stretch finishCode limit24 locate)
open Bytecode.Encoding (word24)
open Bytecode.Listing (Patch)

/-- A number takes the place of the three bytes at its offset. -/
theorem write24_toList {code : Array UInt8} {before field after : List UInt8} (value : Nat)
    (holds : code.toList = before ++ (field ++ after)) (three : field.length = 3) :
    (Bytes.write24 code before.length value).toList = before ++ (word24 value ++ after) := by
  have low : value / 65536 = value / 256 / 256 := by omega
  match field, three with
  | [_, _, _], _ => simp [Bytes.write24, holds, word24, Bytes.littleEndian, low]

/-- Writing the ids of the names of some stretches turns the bytes with zero ids into those with the ids. -/
theorem writeFields_partPatches (table : Array (Nat × Nat)) (ids : String → Nat) (parts : List (Stretch Ref)) :
    ∀ (code : Array UInt8) (before after : List UInt8),
      code.toList = before ++ (partBytes (Ref.origin table) parts ++ after) →
        (Program.writeFields code ((partPatches before.length parts).map fun patch =>
          (patch.field, ids patch.name))).toList = before ++ (partBytes (Ref.linked table ids) parts ++ after) := by
  -- the induction moves the stretches that are done into `before`
  induction parts with
  | nil =>
    intro code before after holds
    exact holds
  | cons part rest ih =>
    intro code before after holds
    have skip : ∀ same : List UInt8, code.toList = before ++ (same ++ (partBytes (Ref.origin table) rest ++ after)) →
        (Program.writeFields code ((partPatches (before.length + same.length) rest).map fun patch =>
          (patch.field, ids patch.name))).toList =
            before ++ (same ++ (partBytes (Ref.linked table ids) rest ++ after)) := by
      intro same split
      have moved := ih code (before ++ same) after (by rw [split, List.append_assoc])
      rwa [List.length_append, List.append_assoc] at moved
    cases part with
    | bytes run =>
      have done := skip run (by rw [holds]; simp [partBytes, Stretch.encode])
      simpa [partPatches, partBytes, Stretch.place, Stretch.encode] using done
    | operand source =>
      cases source with
      | block index =>
        have done := skip ((Ref.block index).origin table).encode (by rw [holds]; simp [partBytes, Stretch.encode])
        rw [isSized_origin] at done
        simpa [partPatches, partBytes, Stretch.place, Stretch.encode, patch?, List.filterMap_cons,
          Ref.linked] using done
      | name text =>
        have field : code.toList = (before ++ [0]) ++ (word24 0 ++ (partBytes (Ref.origin table) rest ++ after)) := by
          rw [holds]
          simp [partBytes, Stretch.encode, Ref.origin, Origin.encode]
        have written := write24_toList (ids text) field (Bytecode.Instr.word24_length 0)
        have done := ih (Bytes.write24 code (before.length + 1) (ids text)) (before ++ 0 :: word24 (ids text)) after
          (by simpa using written)
        simpa [partPatches, partBytes, Stretch.place, Stretch.encode, patch?, List.filterMap_cons, Ref.linked, Ref.size,
          Origin.encode, Program.writeFields] using done

theorem resolve_eq_ok {resolver : String → Option Nat} {ids : String → Nat} (patches : List Patch) :
    (∀ patch ∈ patches, resolver patch.name = some (ids patch.name) ∧ ids patch.name < limit24) →
      ∀ done, Program.resolve resolver patches done = .ok (done.toList ++ patches.map fun patch => ids patch.name) := by
  induction patches with
  | nil =>
    intro _ done
    simp [Program.resolve]
  | cons patch rest ih =>
    intro resolved done
    obtain ⟨found, small⟩ := resolved patch (by simp)
    rw [Program.resolve, found]
    simp only [small, ↓reduceIte]
    rw [ih (fun later member => resolved later (by simp [member]))]
    simp

/-- Linking with ids for all names writes each one's id. -/
theorem link_eq_ok {p : Program} {resolver : String → Option Nat} (ids : String → Nat)
    (resolved : ∀ patch ∈ p.patches, resolver patch.name = some (ids patch.name) ∧ ids patch.name < limit24) :
    p.link resolver = ({ p with
      code := Program.writeFields p.code (p.patches.map fun patch => (patch.field, ids patch.name))
      linked := true }, .ok ()) := by
  rw [Program.link, resolve_eq_ok p.patches resolved]
  simp only [List.nil_append, List.zip_map']

/-- Each texture name of some stretches has a patch. -/
theorem exists_patch {parts : List (Stretch Ref)} {text : String}
    (member : Ref.name text ∈ parts.filterMap Stretch.operand?) :
    ∀ start, ∃ patch ∈ partPatches start parts, patch.name = text := by
  induction parts with
  | nil => simp at member
  | cons part rest ih =>
    intro start
    cases part with
    | bytes run => exact ih member (start + run.length)
    | operand source =>
      have split : Ref.name text ∈ source :: rest.filterMap Stretch.operand? := member
      rcases List.mem_cons.mp split with rfl | later
      · exact ⟨⟨start + 1, text⟩, by simp [partPatches, Stretch.place, patch?], rfl⟩
      · obtain ⟨patch, found, named⟩ := ih later (start + source.size)
        refine ⟨patch, ?_, named⟩
        cases source with
        | block index => exact found
        | name other => exact List.mem_cons_of_mem _ found

theorem mem_operands {blocks : List (List (Instr Ref))} {block : List (Instr Ref)} {i : Instr Ref} {source : Ref}
    (inBlocks : block ∈ blocks) (inBlock : i ∈ block) (isSource : source ∈ i.sources) :
    source ∈ (programParts blocks).filterMap Stretch.operand? := by
  rw [Instr.sources_eq_filterMap, List.mem_filterMap] at isSource
  obtain ⟨part, isPart, isOperand⟩ := isSource
  refine List.mem_filterMap.mpr ⟨part, ?_, isOperand⟩
  refine List.mem_flatMap.mpr ⟨block, inBlocks, ?_⟩
  exact List.mem_append_left _ (List.mem_flatMap.mpr ⟨i, inBlock, isPart⟩)

/-- The code is that of the blocks of a draft with the ids of all names in it. -/
structure IsLinked (d : Draft) (ids : String → Nat) (code : Array UInt8) : Prop where
  holds : code.toList = partBytes (Ref.linked (ranges d.blocks) ids) (programParts d.blocks.toList)
  small : ∀ block ∈ d.blocks.toList, ∀ i ∈ block, ∀ text, Ref.name text ∈ i.sources → ids text < limit24

theorem IsLinked.size_eq {d : Draft} {ids : String → Nat} {code : Array UInt8} (linked : IsLinked d ids code) :
    code.size = (d.blocks.toList.map blockLength).sum := by
  rw [← Array.length_toList, linked.holds, partBytes_programParts_length (isSized_linked _ ids)]

theorem isLinked_writeFields (d : Draft) (ids : String → Nat)
    (small : ∀ patch ∈ (Compiled.ofDraft d).patches.toList, ids patch.name < limit24) :
    IsLinked d ids (Program.writeFields (Compiled.ofDraft d).code
      ((Compiled.ofDraft d).patches.toList.map fun patch => (patch.field, ids patch.name))) where
  holds := by
    have consists := Compiled.consists_ofDraft d
    have written := writeFields_partPatches (ranges d.blocks) ids (programParts d.blocks.toList)
      (Compiled.ofDraft d).code [] [] (by simpa using consists.code)
    rw [consists.patches]
    simpa using written
  small := by
    intro block inBlocks i inBlock text isSource
    obtain ⟨patch, found, named⟩ := exists_patch (mem_operands inBlocks inBlock isSource) 0
    rw [← (Compiled.consists_ofDraft d).patches] at found
    exact named ▸ small patch found

theorem four_mul_sources_le (i : Instr Ref) : 4 * i.sources.length ≤ i.length Ref.size := by
  rw [Instr.sources_eq_filterMap, Instr.length_eq_sum]
  induction i.parts with
  | nil => simp
  | cons part rest ih =>
    cases part with
    | bytes run =>
      simp only [List.filterMap_cons, Stretch.operand?, List.map_cons, List.sum_cons]
      omega
    | operand source =>
      have large : 4 ≤ Stretch.size Ref.size (.operand source) := by cases source <;> simp [Stretch.size, Ref.size]
      simp only [List.filterMap_cons, Stretch.operand?, List.length_cons, List.map_cons, List.sum_cons]
      omega

theorem length_le_blockLength {block : List (Instr Ref)} {i : Instr Ref} (member : i ∈ block) :
    i.length Ref.size < blockLength block := by
  obtain ⟨before, after, rfl⟩ := List.append_of_mem member
  simp only [blockLength_eq_sum, List.map_append, List.map_cons, List.sum_append, List.sum_cons]
  omega

/-- The operands of linked code fit their fields. -/
theorem IsLinked.fits {d : Draft} {jobs : List Job} {p : Pipeline} {ids : String → Nat} {code : Array UInt8}
    (linked : IsLinked d ids code) (isDraft : Draft.IsDraftOf d jobs p) {index : Nat} {block : List (Instr Ref)}
    (found : d.blocks[index]? = some block) :
    ∀ i ∈ block.map (·.map (Ref.linked (ranges d.blocks) ids)), i.Fits := by
  intro encoded member
  obtain ⟨i, inBlock, rfl⟩ := List.mem_map.mp member
  have listed : d.blocks.toList[index]? = some block := by rw [Array.getElem?_toList]; exact found
  have inBlocks := List.mem_of_getElem? listed
  have within := blockStart_add_le_sum listed
  have short := isDraft.size_le
  have limit : Bytecode.sizeLimit < limit24 := by decide
  constructor
  · intro origin isOrigin
    rw [Instr.sources_map] at isOrigin
    obtain ⟨source, isSource, rfl⟩ := List.mem_map.mp isOrigin
    cases source with
    | name text => exact linked.small block inBlocks i inBlock text isSource
    | block inner =>
      obtain ⟨job, isBlock⟩ := isDraft.drafted index block found
      obtain ⟨_, nestedJob, hasJob, _⟩ := isBlock.nested i inBlock inner isSource
      have bound := (List.getElem?_eq_some_iff.mp hasJob).1
      rw [isDraft.counted] at bound
      have innerFound := Array.getElem?_eq_getElem bound
      have innerListed : d.blocks.toList[inner]? = some d.blocks[inner] := by
        rw [Array.getElem?_toList]
        exact innerFound
      have innerWithin := blockStart_add_le_sum innerListed
      rw [Ref.linked, origin_block innerFound]
      exact ⟨by omega, by omega⟩
  · have few := four_mul_sources_le i
    have small := length_le_blockLength inBlock
    have size : Bytecode.sizeLimit = 65537 := rfl
    rw [Instr.sources_map, List.length_map]
    omega

/-- Where the linked code has a block, the block's instructions are read, up to the end on its last byte. -/
theorem IsLinked.block_of {d : Draft} {jobs : List Job} {p : Pipeline} {ids : String → Nat} {code : Array UInt8}
    (linked : IsLinked d ids code) (isDraft : Draft.IsDraftOf d jobs p) {index stop : Nat} {block : List (Instr Ref)}
    (found : d.blocks[index]? = some block) (stops : blockStart d.blocks.toList index + blockLength block ≤ stop) :
    Block.of code (blockStart d.blocks.toList index) stop =
      ⟨locate (blockStart d.blocks.toList index) (block.map (·.map (Ref.linked (ranges d.blocks) ids))),
        .ok (blockStart d.blocks.toList index + blockLength block - 1)⟩ := by
  have sized := isSized_linked (ranges d.blocks) ids
  have listed : d.blocks.toList[index]? = some block := by rw [Array.getElem?_toList]; exact found
  obtain ⟨bound, isBlock⟩ := List.getElem?_eq_some_iff.mp listed
  have split : d.blocks.toList = d.blocks.toList.take index ++ block :: d.blocks.toList.drop (index + 1) := by
    rw [← isBlock, ← List.drop_eq_getElem_cons bound, List.take_append_drop]
  have holds : code.toList = partBytes (Ref.linked (ranges d.blocks) ids) (programParts (d.blocks.toList.take index)) ++
      ((block.map (·.map (Ref.linked (ranges d.blocks) ids))).flatMap Instr.encode ++ finishCode ::
        partBytes (Ref.linked (ranges d.blocks) ids) (programParts (d.blocks.toList.drop (index + 1)))) := by
    rw [linked.holds, split, programParts, List.flatMap_append, List.flatMap_cons, partBytes_append, partBytes_append,
      partBytes_block, ← split, List.append_assoc]
    rfl
  have start := partBytes_programParts_length sized (d.blocks.toList.take index)
  have length := partBytes_blockParts_length sized block
  rw [partBytes_block, List.length_append, List.length_singleton] at length
  rw [blockStart, ← start]
  rw [blockStart, ← start] at stops
  rw [Block.of_encode (linked.fits isDraft found) holds (by omega), ← length, Nat.add_succ_sub_one]

end TextureLoom.Compile
