import Mathlib.Data.List.Nodup
import TextureLoom.Proofs.Compile.Arranging
import TextureLoom.Proofs.Compile.Relinking

set_option autoImplicit false

namespace TextureLoom.Bytecode

open Listing (Patch)

/-- The block in a span, an offset and a length. -/
def Block.at (code : Array UInt8) (span : Nat × Nat) : Block := Block.of code span.1 (span.1 + span.2)

/-- Where the instructions of a span's block start, and where it ends. -/
def positions (code : Array UInt8) (span : Nat × Nat) : List Nat :=
  (Block.at code span).instrs.map (·.position) ++ [span.1 + span.2 - 1]

namespace Listing

/-- The line above a block, for all but the first. -/
def heading (start : Nat) : String := if start = 0 then "" else s!"sub@{start}:\n"

def instrLine (patches : List Patch) (located : Located) : String :=
  line located.position (located.instr.mnemonic ++ operands patches located.instr)

/-- The lines of a block with these instructions and an end at `finish`. -/
def blockLines (patches : List Patch) (start : Nat) (instrs : List Located) (finish : Nat) : String :=
  heading start ++ String.join (instrs.map (instrLine patches)) ++ line finish "end"

/-- The lines of the block in a span. -/
def spanLines (patches : List Patch) (code : Array UInt8) (span : Nat × Nat) : String :=
  blockLines patches span.1 (Block.at code span).instrs (span.1 + span.2 - 1)

theorem lines_heading (patches : List Patch) (turns start : Nat) {bytes : List UInt8} (more : bytes ≠ [])
    (done : String) :
    lines patches (turns + 1) true ⟨start, bytes⟩ done =
      lines patches (turns + 1) false ⟨start, bytes⟩ (done ++ heading start) := by
  have nonempty : bytes.isEmpty = false := List.isEmpty_eq_false_iff.mpr more
  have same : (if (true && start != 0) then s!"{done}sub@{start}:\n" else done) = done ++ heading start := by
    by_cases zero : start = 0
    · subst zero
      exact String.append_empty.symm
    · rw [heading, if_neg zero, if_pos (by simpa using zero)]
      simp only [toString, String.append_assoc]
  simp only [lines, nonempty, Bool.false_eq_true, ↓reduceIte, same, Bool.false_and]

/-- A block is listed instruction by instruction, and behind it comes the next. -/
theorem lines_instrs (patches : List Patch) (instrs : List (Instr Origin)) (fits : ∀ i ∈ instrs, i.Fits) :
    ∀ (start turns : Nat) (done : String) (after : List UInt8), instrs.length < turns →
      lines patches turns false ⟨start, instrs.flatMap Instr.encode ++ finishCode :: after⟩ done =
        lines patches (turns - instrs.length - 1) true ⟨start + (instrs.flatMap Instr.encode).length + 1, after⟩
          (done ++ String.join ((locate start instrs).map (instrLine patches)) ++
            line (start + (instrs.flatMap Instr.encode).length) "end") := by
  induction instrs with
  | nil =>
    intro start turns done after enough
    obtain ⟨turns, rfl⟩ := Nat.exists_eq_succ_of_ne_zero (show turns ≠ 0 by omega)
    have finish := Reader.takes_finish start after
    rw [List.singleton_append] at finish
    simp only [List.flatMap_nil, List.nil_append, lines, List.isEmpty_cons, Bool.false_eq_true, ↓reduceIte,
      Bool.false_and, StateT.run, finish, locate, List.map_nil, String.join_nil, String.append_empty, List.length_nil,
      Nat.add_zero, Nat.succ_eq_add_one, Nat.sub_zero, Nat.add_sub_cancel, List.length_singleton]
  | cons i rest ih =>
    intro start turns done after enough
    obtain ⟨turns, rfl⟩ := Nat.exists_eq_succ_of_ne_zero (show turns ≠ 0 by omega)
    rw [List.length_cons] at enough
    have first := Reader.takes_instr start (fits i List.mem_cons_self)
      (rest.flatMap Instr.encode ++ finishCode :: after)
    have behind := ih (fun j member => fits j (List.mem_cons_of_mem i member)) (start + i.encode.length) turns
      (done ++ line start ((i.place Origin.size Operand.at start).mnemonic ++
        operands patches (i.place Origin.size Operand.at start))) after (by omega)
    have nonempty : (i.encode ++ (rest.flatMap Instr.encode ++ finishCode :: after)).isEmpty = false := by simp
    have left : turns + 1 - (rest.length + 1) - 1 = turns - rest.length - 1 := by omega
    rw [List.flatMap_cons, List.append_assoc]
    simp only [lines, nonempty, Bool.false_eq_true, ↓reduceIte, Bool.false_and, StateT.run, first, behind, locate,
      List.map_cons, String.join_cons, instrLine, List.length_append, List.length_cons, left, Nat.add_assoc,
      String.append_assoc, Nat.succ_eq_add_one]

end Listing

/-- Instructions one behind the other start one behind the other, each before the end. -/
theorem locate_ascends (instrs : List (Instr Origin)) :
    ∀ start, ((locate start instrs).map (·.position)).Pairwise (· < ·) ∧
      ∀ position ∈ (locate start instrs).map (·.position),
        start ≤ position ∧ position < start + (instrs.flatMap Instr.encode).length := by
  induction instrs with
  | nil => exact fun start => ⟨.nil, fun position member => nomatch member⟩
  | cons i rest ih =>
    intro start
    obtain ⟨ascends, within⟩ := ih (start + i.encode.length)
    have some : 0 < i.encode.length := List.length_pos_iff.mpr (encode_ne_nil i)
    rw [locate, List.map_cons, List.flatMap_cons, List.length_append]
    refine ⟨.cons (fun position member => ?_) ascends, fun position member => ?_⟩
    · have := within position member
      change start < position
      omega
    · rcases List.mem_cons.mp member with here | later
      · have isStart : position = start := here
        omega
      · have := within position later
        omega

end TextureLoom.Bytecode

namespace TextureLoom.Compile

open Bytecode (Block Instr Located Operand Origin blockRanges locate positions finishCode)
open Bytecode.Listing (Patch blockLines spanLines)

/-- Behind each other blocks are listed one by one, with a heading for each but the first. -/
theorem lines_programParts (patches : List Patch) {origin : Ref → Origin} (sized : IsSized origin)
    (blocks : List (List (Instr Ref))) (fits : ∀ block ∈ blocks, ∀ i ∈ block.map (·.map origin), i.Fits) :
    ∀ (start turns : Nat) (done : String), (partBytes origin (programParts blocks)).length < turns →
      Bytecode.Listing.lines patches turns true ⟨start, partBytes origin (programParts blocks)⟩ done =
        done ++ String.join (blocks.mapIdx fun index block =>
          blockLines patches (start + blockStart blocks index)
            (locate (start + blockStart blocks index) (block.map (·.map origin)))
            (start + blockStart blocks index + blockLength block - 1)) := by
  induction blocks with
  | nil =>
    intro start turns done enough
    obtain ⟨turns, rfl⟩ := Nat.exists_eq_succ_of_ne_zero (show turns ≠ 0 by omega)
    exact String.append_empty.symm
  | cons block rest ih =>
    intro start turns done enough
    obtain ⟨turns, rfl⟩ := Nat.exists_eq_succ_of_ne_zero (show turns ≠ 0 by omega)
    obtain ⟨instrs, isInstrs⟩ : ∃ instrs, instrs = block.map (·.map origin) := ⟨_, rfl⟩
    have fitting : ∀ i ∈ instrs, i.Fits := isInstrs ▸ fits block List.mem_cons_self
    have length := partBytes_blockParts_length sized block
    rw [partBytes_block, ← isInstrs, List.length_append, List.length_singleton] at length
    have split : partBytes origin (programParts (block :: rest)) =
        instrs.flatMap Instr.encode ++ finishCode :: partBytes origin (programParts rest) := by
      rw [programParts, List.flatMap_cons, partBytes_append, partBytes_block, ← isInstrs, List.append_assoc]
      rfl
    have few := Bytecode.length_le_flatMap_encode instrs
    rw [split, List.length_append, List.length_cons] at enough
    rw [split, Bytecode.Listing.lines_heading patches turns start (by simp),
      Bytecode.Listing.lines_instrs patches instrs fitting _ _ _ _ (by omega),
      ih (fun other member => fits other (List.mem_cons_of_mem block member)) _ _ _ (by omega), List.mapIdx_cons,
      String.join_cons, blockStart_zero, Nat.add_zero, ← isInstrs, ← length]
    have starts (index : Nat) : start + (instrs.flatMap Instr.encode).length + 1 + blockStart rest index =
        start + blockStart (block :: rest) (index + 1) := by
      simp only [blockStart, List.take_succ_cons, List.map_cons, List.sum_cons, ← length]
      omega
    simp only [starts, blockLines, String.append_assoc, ← Nat.add_assoc, Nat.add_sub_cancel, Nat.add_zero]

/-- Spans that follow each other have their positions one behind the other. -/
theorem Tiles.ascends {code : Array UInt8} {spans : List (Nat × Nat)} :
    ∀ {start stop : Nat}, Tiles start spans stop →
      (∀ span ∈ spans, (positions code span).Pairwise (· < ·) ∧
        ∀ position ∈ positions code span, span.1 ≤ position ∧ position < span.1 + span.2) →
      (spans.flatMap (positions code)).Pairwise (· < ·) ∧
        ∀ position ∈ spans.flatMap (positions code), start ≤ position := by
  induction spans with
  | nil => exact fun _ _ => ⟨.nil, fun position member => nomatch member⟩
  | cons span rest ih =>
    intro start stop tiles each
    obtain ⟨begins, _, tiles⟩ := tiles
    obtain ⟨ascends, within⟩ := each span List.mem_cons_self
    obtain ⟨behind, later⟩ := ih tiles fun other member => each other (List.mem_cons_of_mem span member)
    rw [List.flatMap_cons, List.pairwise_append]
    refine ⟨⟨ascends, behind, fun first isFirst second isSecond => ?_⟩, fun position member => ?_⟩
    · have := within first isFirst
      have := later second isSecond
      omega
    · rcases List.mem_append.mp member with here | there
      · have := within position here
        omega
      · have := later position there
        omega

section

variable {d : Draft} {jobs : List Job} {p : Pipeline}

/-- The spans of a draft's blocks in order. -/
def Draft.spans (d : Draft) : List (Nat × Nat) := (ranges d.blocks).toList

theorem exists_of_mem_spans {span : Nat × Nat} (member : span ∈ d.spans) :
    ∃ index block, d.blocks[index]? = some block ∧ span = (blockStart d.blocks.toList index, blockLength block) := by
  obtain ⟨index, found⟩ := List.mem_iff_getElem?.mp member
  rw [Draft.spans, Array.getElem?_toList, ranges_getElem?] at found
  obtain ⟨block, isBlock, rfl⟩ := Option.map_eq_some_iff.mp found
  exact ⟨index, block, isBlock, rfl⟩

theorem Draft.IsDraftOf.block_at (isDraft : Draft.IsDraftOf d jobs p) {index : Nat} {block : List (Instr Ref)}
    (found : d.blocks[index]? = some block) :
    Block.at (Compiled.ofDraft d).code (blockStart d.blocks.toList index, blockLength block) =
      d.decoded (fun _ => 0) index block :=
  (isLinked_ofDraft d).block_of isDraft found (Nat.le_refl _)

theorem Draft.IsDraftOf.spans_eq (isDraft : Draft.IsDraftOf d jobs p) :
    ∃ length, d.spans = (0, length) ::
      d.spans.flatMap fun span => blockRanges (Block.at (Compiled.ofDraft d).code span).instrs := by
  obtain ⟨block, found, _⟩ := exists_block isDraft isDraft.first
  have first : d.spans.head? = some (0, blockLength block) := by
    rw [Draft.spans, List.head?_eq_getElem?, Array.getElem?_toList, ranges_getElem?, found, Option.map_some,
      blockStart_zero]
  obtain ⟨rest, split⟩ := List.head?_eq_some_iff.mp first
  refine ⟨blockLength block, ?_⟩
  have references := references_of_isDraft isDraft
  rw [← Draft.spans, split, List.tail_cons] at references
  rw [split]
  exact congrArg _ references

theorem encoded_length (block : List (Instr Ref)) {origin : Ref → Origin} (sized : IsSized origin) :
    ((block.map (·.map origin)).flatMap Instr.encode).length + 1 = blockLength block := by
  have length := partBytes_blockParts_length sized block
  rwa [partBytes_block, List.length_append, List.length_singleton] at length

theorem Draft.IsDraftOf.positions (isDraft : Draft.IsDraftOf d jobs p) {span : Nat × Nat} (member : span ∈ d.spans) :
    (positions (Compiled.ofDraft d).code span).Pairwise (· < ·) ∧
      ∀ position ∈ positions (Compiled.ofDraft d).code span, span.1 ≤ position ∧ position < span.1 + span.2 := by
  obtain ⟨index, block, found, rfl⟩ := exists_of_mem_spans member
  obtain ⟨ascends, within⟩ := Bytecode.locate_ascends (block.map (·.map (Ref.linked (ranges d.blocks) fun _ => 0)))
    (blockStart d.blocks.toList index)
  have length := encoded_length block (isSized_linked (ranges d.blocks) fun _ => 0)
  rw [Bytecode.positions, isDraft.block_at found, Draft.decoded, List.pairwise_append]
  refine ⟨⟨ascends, List.pairwise_singleton _ _, fun first isFirst last isLast => ?_⟩, fun position member => ?_⟩
  · have := within first isFirst
    rw [List.mem_singleton.mp isLast]
    omega
  · rcases List.mem_append.mp member with inside | last
    · have := within position inside
      dsimp only
      omega
    · rw [List.mem_singleton.mp last]
      dsimp only
      omega

/-- The name of a texture in a draft's code has a patch at the field of its id. -/
theorem Draft.IsDraftOf.exists_patch (isDraft : Draft.IsDraftOf d jobs p) {span : Nat × Nat} (member : span ∈ d.spans)
    {l : Located} (isInstr : l ∈ (Block.at (Compiled.ofDraft d).code span).instrs) {o : Operand}
    (isOperand : o ∈ l.instr.sources) {id : Nat} (isTexture : o.origin = .texture id) :
    ∃ patch ∈ (Compiled.ofDraft d).patches.toList, patch.field = o.field := by
  obtain ⟨index, block, found, rfl⟩ := exists_of_mem_spans member
  rw [isDraft.block_at found, Draft.decoded] at isInstr
  have isField : o.field ∈ l.instr.fields := by
    refine List.mem_map.mpr ⟨(o.field, id), List.mem_filterMap.mpr ⟨o, isOperand, ?_⟩, rfl⟩
    rw [Operand.texture?, isTexture]
  have named : o.field ∈ nameFields 0 (programParts d.blocks.toList) := by
    rw [mem_nameFields_programParts]
    refine ⟨index, block, by rwa [Array.getElem?_toList], ?_⟩
    rw [Nat.zero_add, mem_nameFields_locate]
    exact ⟨l, isInstr, isField⟩
  rw [(Compiled.consists_ofDraft d).patches]
  exact List.mem_map.mp named

theorem listing_ofDraft (isDraft : Draft.IsDraftOf d jobs p) (patches : List Patch) :
    Bytecode.listing (Compiled.ofDraft d).code patches =
      String.join (d.spans.map (spanLines patches (Compiled.ofDraft d).code)) := by
  have linked := isLinked_ofDraft d
  have fits : ∀ block ∈ d.blocks.toList, ∀ i ∈ block.map (·.map (Ref.linked (ranges d.blocks) fun _ => 0)), i.Fits := by
    intro block member
    obtain ⟨index, found⟩ := List.mem_iff_getElem?.mp member
    rw [Array.getElem?_toList] at found
    exact linked.fits isDraft found
  have window : Bytecode.Window.of (Compiled.ofDraft d).code 0 (Compiled.ofDraft d).code.size =
      ⟨0, partBytes (Ref.linked (ranges d.blocks) fun _ => 0) (programParts d.blocks.toList)⟩ := by
    rw [← linked.holds]
    simp [Bytecode.Window.of]
  have lines := lines_programParts patches (isSized_linked (ranges d.blocks) fun _ => 0) d.blocks.toList fits 0
    ((Compiled.ofDraft d).code.toList.length + 1) "" (by rw [← linked.holds]; omega)
  have each : (d.blocks.toList.mapIdx fun index block => blockLines patches (0 + blockStart d.blocks.toList index)
      (locate (0 + blockStart d.blocks.toList index) (block.map (·.map (Ref.linked (ranges d.blocks) fun _ => 0))))
      (0 + blockStart d.blocks.toList index + blockLength block - 1)) =
        d.spans.map (spanLines patches (Compiled.ofDraft d).code) := by
    apply List.ext_getElem?
    intro index
    rw [List.getElem?_mapIdx, List.getElem?_map, Draft.spans, Array.getElem?_toList, Array.getElem?_toList,
      ranges_getElem?]
    cases found : d.blocks[index]? with
    | none => rfl
    | some block =>
      simp only [Option.map_some, spanLines, isDraft.block_at found, Draft.decoded, Nat.zero_add]
  unfold Bytecode.listing
  rw [window]
  dsimp only
  rw [← linked.holds] at lines ⊢
  rw [lines, String.empty_append, each]

end

/-- The listing of a program is that of the blocks in `spans`, complete and in order. -/
structure Lists (p : Program) (spans : List (Nat × Nat)) : Prop where
  /-- The main program is at the front, and behind it are the blocks that operands name. -/
  references : ∃ length, spans = (0, length) :: spans.flatMap fun span => blockRanges (Block.at p.code span).instrs
  tiles : Tiles 0 spans p.code.size
  ends : ∀ span ∈ spans, (Block.at p.code span).finish = .ok (span.1 + span.2 - 1)
  ascends : (spans.flatMap (positions p.code)).Pairwise (· < ·)
  listing : p.listing = String.join (spans.map (spanLines p.patches p.code))
  /-- A texture is shown with the name that the one patch of its field has. -/
  named : ∀ span ∈ spans, ∀ l ∈ (Block.at p.code span).instrs, ∀ o ∈ l.instr.sources, ∀ id, o.origin = .texture id →
    ∃ patch ∈ p.patches, patch.field = o.field ∧ (∀ other ∈ p.patches, other.field = o.field → other = patch) ∧
      Bytecode.Listing.source p.patches o = s!"tex#{id} ({Text.quoted patch.name})"

theorem source_of_patch {patches : List Patch} {patch : Patch} {o : Operand} {id : Nat} (member : patch ∈ patches)
    (field : patch.field = o.field) (only : ∀ other ∈ patches, other.field = o.field → other = patch)
    (isTexture : o.origin = .texture id) :
    Bytecode.Listing.source patches o = s!"tex#{id} ({Text.quoted patch.name})" := by
  cases found : patches.find? (·.field == o.field) with
  | none =>
    have absent := List.find?_eq_none.mp found patch member
    exact absurd (beq_iff_eq.mpr field) absent
  | some other =>
    have atField := List.find?_some found
    have same := only other (List.mem_of_find?_eq_some found) (beq_iff_eq.mp atField)
    rw [Bytecode.Listing.source, isTexture, found, same]

/-- A canvas with a texture, a nested pipeline and another texture on it. -/
def mixed : String := "combine(8, 8, 0, 0, moss, 2, 2, tex(stone |> brighten), 4, 4, dirt)"

end TextureLoom.Compile
