import TextureLoom.Proofs.Compile.Correctness
import TextureLoom.Proofs.Compile.Denoting

set_option autoImplicit false

namespace TextureLoom.Bytecode

/-- Two instructions are the same but for their operands, which correspond in order. -/
structure Instr.Alike {σ τ : Type} (relates : σ → τ → Prop) (i : Instr σ) (j : Instr τ) : Prop where
  shape : (i.map fun _ => ()) = j.map fun _ => ()
  operands : List.Forall₂ relates i.sources j.sources

/-- The ranges of the blocks that some decoded instructions name, in order. -/
def blockRanges (instrs : List Located) : List (Nat × Nat) :=
  instrs.flatMap fun located => located.instr.sources.filterMap Operand.block?

/-- Where an instruction starts makes no difference but to its operands. -/
theorem Instr.map_place {σ τ : Type} (sizeOf : σ → Nat) (f : Nat → σ → τ) (i : Instr σ) (start : Nat) :
    ((i.place sizeOf f start).map fun _ => ()) = i.map fun _ => () := by
  cases i with
  | combine w h insets =>
    have shapes : ∀ start, (place.placeInsets sizeOf f start #[] insets).map
          (fun p => (⟨p.x, p.y, ()⟩ : Inset Unit)) = insets.map fun p => ⟨p.x, p.y, ()⟩ := by
      induction insets with
      | nil => exact fun _ => rfl
      | cons inset rest ih =>
        intro start
        rw [placeInsets_cons, List.map_cons, List.map_cons, ih]
    simp only [place, map_combine, shapes]
  | _ => rfl

theorem Stretch.forall₂_place {σ τ υ : Type} {relates : τ → υ → Prop} (sizeOf : σ → Nat) (f : σ → τ)
    (g : Nat → σ → υ) (parts : List (Stretch σ)) :
    ∀ start, (∀ placed ∈ place sizeOf Prod.mk start parts, relates (f placed.2) (g placed.1 placed.2)) →
      List.Forall₂ relates ((parts.filterMap operand?).map f) (place sizeOf g start parts) := by
  induction parts with
  | nil => exact fun _ _ => .nil
  | cons part rest ih =>
    intro start each
    cases part with
    | bytes run => exact ih (start + run.length) each
    | operand s =>
      have first := each (start, s) List.mem_cons_self
      exact .cons first (ih (start + sizeOf s) fun placed member => each placed (List.mem_cons_of_mem _ member))

theorem Stretch.mem_operand_of_place {σ : Type} {sizeOf : σ → Nat} {parts : List (Stretch σ)} {placed : Nat × σ} :
    ∀ {start : Nat}, placed ∈ place sizeOf Prod.mk start parts →
      placed.2 ∈ parts.filterMap operand? := by
  induction parts with
  | nil => exact fun member => absurd member List.not_mem_nil
  | cons part rest ih =>
    intro start member
    cases part with
    | bytes run => exact ih member
    | operand source =>
      rcases List.mem_cons.mp member with rfl | later
      · exact List.mem_cons_self
      · exact List.mem_cons_of_mem source (ih later)

/-- Decoding an instruction changes its operands only. -/
theorem Instr.alike_place {σ τ : Type} {relates : τ → Operand → Prop} {sizeOf : σ → Nat} {f : σ → τ} {g : σ → Origin}
    (sized : ∀ s, (g s).size = sizeOf s) (i : Instr σ) (start : Nat)
    (each : ∀ placed ∈ Stretch.place sizeOf Prod.mk start i.parts,
      relates (f placed.2) (Operand.at placed.1 (g placed.2))) :
    (i.map f).Alike relates ((i.map g).place Origin.size Operand.at start) where
  shape := by
    rw [map_place, map_map, map_map]
    rfl
  operands := by
    have sizes : Origin.size ∘ g = sizeOf := funext sized
    rw [sources_map, place_map, sources_place, sizes, sources_eq_filterMap]
    exact Stretch.forall₂_place sizeOf f _ i.parts start each

theorem forall₂_locate {σ τ : Type} {relates : τ → Operand → Prop} {sizeOf : σ → Nat} {f : σ → τ} {g : σ → Origin}
    (sized : ∀ s, (g s).size = sizeOf s) (instrs : List (Instr σ)) :
    ∀ start, (∀ placed ∈ Stretch.place sizeOf Prod.mk start (instrs.flatMap Instr.parts),
        relates (f placed.2) (Operand.at placed.1 (g placed.2))) →
      List.Forall₂ (fun i (located : Located) => i.Alike relates located.instr) (instrs.map (·.map f))
        (locate start (instrs.map (·.map g))) := by
  induction instrs with
  | nil => exact fun _ _ => .nil
  | cons i rest ih =>
    intro start each
    rw [List.flatMap_cons, Stretch.place_append] at each
    have length : (i.map g).encode.length = (i.parts.map (Stretch.size sizeOf)).sum := by
      rw [Instr.encode_map_length (fun s => (Origin.encode_length _).trans (sized s)), Instr.length_eq_sum]
    refine .cons (i.alike_place sized start fun placed member => each placed (List.mem_append_left _ member)) ?_
    rw [length]
    exact ih _ fun placed member => each placed (List.mem_append_right _ member)

/-- The range of the block that an origin names. -/
def Origin.range? : Origin → Option (Nat × Nat)
  | .texture _ => none
  | .block offset length => some (offset, length)

theorem blockRanges_locate (instrs : List (Instr Origin)) :
    ∀ start, blockRanges (locate start instrs) = instrs.flatMap fun i => i.sources.filterMap Origin.range? := by
  induction instrs with
  | nil => exact fun _ => rfl
  | cons i rest ih =>
    intro start
    have origins : ∀ operands : List Operand, operands.filterMap Operand.block? =
        (operands.map (·.origin)).filterMap Origin.range? := by
      intro operands
      rw [List.filterMap_map]
      refine List.filterMap_congr fun operand _ => ?_
      rw [Operand.block?, Function.comp_apply]
      cases operand.origin <;> rfl
    have later := ih (start + i.encode.length)
    unfold blockRanges at later ⊢
    rw [locate, List.flatMap_cons, List.flatMap_cons, later, origins, Instr.sources_place, Stretch.place_map_origin,
      ← Instr.sources_eq_filterMap]

end TextureLoom.Bytecode

namespace TextureLoom.Compile

open Bytecode (Block Instr Located Operand Origin Stretch blockRanges blockRanges_locate forall₂_locate locate)

/-- Spans, each an offset and a length, that follow each other from one offset to another, none of them empty. -/
def Tiles : Nat → List (Nat × Nat) → Nat → Prop
  | start, [], stop => start = stop
  | start, span :: rest, stop => span.1 = start ∧ 0 < span.2 ∧ Tiles (start + span.2) rest stop

/-- What an operand says in code whose blocks in `spans` are those of the pipelines in `order`: a texture name has a
patch at its field, and a nested pipeline the span of a block of its own. -/
def Shows (c : Compiled) (order : List Pipeline) (spans : List (Nat × Nat)) : Piece → Operand → Prop
  | .name text, operand => operand.origin = .texture 0 ∧ ⟨operand.field, text⟩ ∈ c.patches
  | .nested p, operand => ∃ (index : Nat) (span : Nat × Nat), order[index]? = some p ∧ spans[index]? = some span ∧
    operand.origin = .block span.1 span.2

/-- The block in a span is that of a pipeline: it is decoded to the instructions that the pipeline denotes, with an
end on its last byte. -/
def IsBlock (c : Compiled) (order : List Pipeline) (spans : List (Nat × Nat)) (p : Pipeline) (span : Nat × Nat) :
    Prop :=
  ∃ instrs located, p.Denotes instrs ∧
    (∀ stop, span.1 + span.2 ≤ stop → Block.of c.code span.1 stop = ⟨located, .ok (span.1 + span.2 - 1)⟩) ∧
    List.Forall₂ (fun i (l : Located) => i.Alike (Shows c order spans) l.instr) instrs located

/-- The code of a pipeline consists of the blocks in `spans`, which are those of the pipelines in `order`, where
`nested` are the pipelines nested in one. -/
structure Layout (nested : Pipeline → List Pipeline) (p : Pipeline) (c : Compiled) (order : List Pipeline)
    (spans : List (Nat × Nat)) : Prop where
  /-- The pipeline itself comes first. Behind it, for each pipeline of the list in turn, comes what is nested in
  that. -/
  breadthFirst : order = p :: order.flatMap nested
  tiles : Tiles 0 spans c.code.size
  blocks : List.Forall₂ (IsBlock c order spans) order spans
  /-- The spans that operands name are, in order, those of the blocks behind the first. -/
  references : spans.tail = spans.flatMap fun span => blockRanges (Block.of c.code span.1 (span.1 + span.2)).instrs

variable {d : Draft} {jobs : List Job} {p : Pipeline}

theorem nestedIn_map_piece (block : List (Instr Ref)) :
    nestedIn (block.map (·.map (Ref.piece jobs))) =
      (numbersIn block).filterMap fun index => (jobs[index]?).map (·.pipeline) := by
  have each : ∀ ref : Ref, (Ref.piece jobs ref).nested? =
      ref.number?.bind fun index => (jobs[index]?).map (·.pipeline) := by
    intro ref
    cases ref with
    | name text => rfl
    | block index =>
      rw [Ref.piece, Ref.number?, Option.bind_some]
      cases jobs[index]? <;> rfl
  rw [nestedIn, numbersIn, List.filterMap_flatMap, List.flatMap_map]
  congr 1
  funext i
  rw [Bytecode.Instr.sources_map, List.filterMap_map, List.filterMap_filterMap]
  exact List.filterMap_congr fun ref _ => each ref

theorem filterMap_range {α : Type} (items : List α) (count : Nat) :
    (List.range count).filterMap (items[·]?) = items.take count := by
  induction count with
  | zero => rfl
  | succ count ih =>
    rw [List.range_succ, List.filterMap_append, ih, List.take_add_one]
    cases found : items[count]? <;> simp [found]

/-- Numbering pipelines breadth first puts what is nested in each behind all that was numbered before. -/
theorem breadthFirst_of_isDraft (isDraft : Draft.IsDraftOf d jobs p) :
    jobs.map (·.pipeline) = p :: (jobs.map (·.pipeline)).flatMap Pipeline.nested := by
  have each : jobs.map (fun job => job.pipeline.nested) = d.blocks.toList.map fun block =>
      (numbersIn block).filterMap ((jobs.map (·.pipeline))[·]?) := by
    apply List.ext_getElem?
    intro index
    rw [List.getElem?_map, List.getElem?_map]
    cases found : d.blocks.toList[index]? with
    | none =>
      have outside := List.getElem?_eq_none_iff.mp found
      rw [List.getElem?_eq_none (by rw [isDraft.counted]; exact outside)]
      rfl
    | some block =>
      rw [Array.getElem?_toList] at found
      obtain ⟨job, isBlock⟩ := isDraft.drafted index block found
      have nested := isBlock.instrs.denotes.nestedIn_eq
      rw [isBlock.found, Option.map_some, Option.map_some, ← nested, nestedIn_map_piece]
      simp only [List.getElem?_map]
  have numbered := congrArg (List.filterMap ((jobs.map (·.pipeline))[·]?)) isDraft.numbers
  have first : (jobs.map (·.pipeline))[0]? = some p := by rw [List.getElem?_map, isDraft.first, Option.map_some]
  have all : (jobs.map (·.pipeline)).length ≤ d.blocks.size := by simp [isDraft.counted]
  rw [List.filterMap_cons_some first, List.filterMap_flatMap, List.flatMap_def, ← each, ← List.range_eq_range',
    filterMap_range, List.take_of_length_le all] at numbered
  rw [List.flatMap_map, List.flatMap_def]
  exact numbered.symm

theorem ranges_toList (blocks : Array (List (Instr Ref))) :
    (ranges blocks).toList = blocks.toList.mapIdx fun index block =>
      (blockStart blocks.toList index, blockLength block) := by
  apply List.ext_getElem?
  intro index
  rw [Array.getElem?_toList, ranges_getElem?, List.getElem?_mapIdx, Array.getElem?_toList]

theorem tiles_mapIdx (blocks : List (List (Instr Ref))) :
    ∀ start, Tiles start (blocks.mapIdx fun index block => (start + blockStart blocks index, blockLength block))
      (start + (blocks.map blockLength).sum) := by
  induction blocks with
  | nil => exact fun _ => rfl
  | cons block rest ih =>
    intro start
    rw [List.mapIdx_cons]
    refine ⟨by rw [blockStart_zero, Nat.add_zero], blockLength_pos block, ?_⟩
    have later := ih (start + blockLength block)
    rw [List.map_cons, List.sum_cons, ← Nat.add_assoc]
    simpa only [blockStart, List.take_succ_cons, List.map_cons, List.sum_cons, Nat.add_assoc] using later

/-- The operands of a block are operands of the program. -/
theorem mem_place_programParts {blocks : List (List (Instr Ref))} {index : Nat} {block : List (Instr Ref)}
    (found : blocks[index]? = some block) {placed : Nat × Ref}
    (member : placed ∈ Stretch.place Ref.size Prod.mk (blockStart blocks index) (block.flatMap Instr.parts)) :
    placed ∈ Stretch.place Ref.size Prod.mk 0 (programParts blocks) := by
  obtain ⟨bound, isBlock⟩ := List.getElem?_eq_some_iff.mp found
  have split : blocks = blocks.take index ++ block :: blocks.drop (index + 1) := by
    rw [← isBlock, ← List.drop_eq_getElem_cons bound, List.take_append_drop]
  have start : blockStart blocks index = 0 + ((programParts (blocks.take index)).map (Stretch.size Ref.size)).sum := by
    rw [← partBytes_length (isSized_origin #[]), partBytes_programParts_length (isSized_origin #[]), blockStart,
      Nat.zero_add]
  rw [start] at member
  rw [split, programParts, List.flatMap_append, List.flatMap_cons, blockParts, List.append_assoc, Stretch.place_append,
    Stretch.place_append]
  exact List.mem_append_right _ (List.mem_append_left _ member)

/-- Unlinked code has the number zero for each name. -/
theorem isLinked_ofDraft (d : Draft) : IsLinked d (fun _ => 0) (Compiled.ofDraft d).code where
  holds := by
    have zero : Ref.origin (ranges d.blocks) = Ref.linked (ranges d.blocks) fun _ => 0 := by
      funext ref
      cases ref <;> rfl
    rw [← zero]
    exact (Compiled.consists_ofDraft d).code
  small := by
    intro block _ i _ text _
    decide

/-- The operands of a block's instructions show the pieces that they were made of. -/
theorem shows_of_isBlock (isDraft : Draft.IsDraftOf d jobs p) {index : Nat} {job : Job} {block : List (Instr Ref)}
    (isBlock : IsBlockOf jobs index job block) (found : d.blocks[index]? = some block) {placed : Nat × Ref}
    (member : placed ∈ Stretch.place Ref.size Prod.mk (blockStart d.blocks.toList index)
      (block.flatMap Instr.parts)) :
    Shows (Compiled.ofDraft d) (jobs.map (·.pipeline)) (ranges d.blocks).toList (Ref.piece jobs placed.2)
      (Operand.at placed.1 (Ref.linked (ranges d.blocks) (fun _ => 0) placed.2)) := by
  obtain ⟨start, ref⟩ := placed
  cases ref with
  | name text =>
    refine ⟨rfl, ?_⟩
    have inProgram := mem_place_programParts (by rw [Array.getElem?_toList]; exact found) member
    rw [← Array.mem_toList_iff, (Compiled.consists_ofDraft d).patches]
    exact List.mem_filterMap.mpr ⟨_, inProgram, rfl⟩
  | block inner =>
    have isOperand := Stretch.mem_operand_of_place member
    rw [List.filterMap_flatMap] at isOperand
    obtain ⟨i, inBlock, isSource⟩ := List.mem_flatMap.mp isOperand
    rw [← Instr.sources_eq_filterMap] at isSource
    obtain ⟨_, nestedJob, isJob, _⟩ := isBlock.nested i inBlock inner isSource
    obtain ⟨nestedBlock, nestedFound, _⟩ := exists_block isDraft isJob
    have piece : Ref.piece jobs (.block inner) = .nested nestedJob.pipeline := by rw [Ref.piece, isJob]
    rw [piece]
    refine ⟨inner, (blockStart d.blocks.toList inner, blockLength nestedBlock), ?_, ?_, ?_⟩
    · rw [List.getElem?_map, isJob, Option.map_some]
    · rw [Array.getElem?_toList, ranges_getElem?, nestedFound, Option.map_some]
    · exact origin_block nestedFound

theorem isBlock_of_isDraft (isDraft : Draft.IsDraftOf d jobs p) {index : Nat} {job : Job}
    (isJob : jobs[index]? = some job) {span : Nat × Nat} (isSpan : (ranges d.blocks).toList[index]? = some span) :
    IsBlock (Compiled.ofDraft d) (jobs.map (·.pipeline)) (ranges d.blocks).toList job.pipeline span := by
  obtain ⟨block, found, _, isBlock⟩ := exists_block isDraft isJob
  rw [Array.getElem?_toList, ranges_getElem?, found, Option.map_some, Option.some.injEq] at isSpan
  cases isSpan
  have sized : ∀ ref, (Ref.linked (ranges d.blocks) (fun _ => 0) ref).size = ref.size := by
    intro ref
    rw [← Origin.encode_length, isSized_linked]
  refine ⟨_, _, isBlock.instrs.denotes, fun stop stops => (isLinked_ofDraft d).block_of isDraft found stops, ?_⟩
  exact forall₂_locate sized block _ fun placed member => shows_of_isBlock isDraft isBlock found member

theorem blockRanges_eq (table : Array (Nat × Nat)) (ids : String → Nat) (block : List (Instr Ref)) (start : Nat) :
    blockRanges (locate start (block.map (·.map (Ref.linked table ids)))) =
      (numbersIn block).map fun index => table.getD index (0, 0) := by
  have each : ∀ ref : Ref, (Ref.linked table ids ref).range? =
      ref.number?.map fun index => table.getD index (0, 0) := by
    intro ref
    cases ref <;> rfl
  rw [blockRanges_locate, List.flatMap_map, numbersIn, List.map_flatMap]
  congr 1
  funext i
  rw [Instr.sources_map, List.filterMap_map, List.map_filterMap]
  exact List.filterMap_congr fun ref _ => each ref

theorem map_getD_range (table : Array (Nat × Nat)) :
    (List.range table.size).map (fun index => table.getD index (0, 0)) = table.toList := by
  apply List.ext_getElem
  · simp
  · intro index _ bound
    have inside : index < table.size := by simpa using bound
    simp [Array.getD, inside]

/-- The blocks that operands name are numbered in the order of the operands. -/
theorem references_of_isDraft (isDraft : Draft.IsDraftOf d jobs p) :
    (ranges d.blocks).toList.tail = (ranges d.blocks).toList.flatMap fun span =>
      blockRanges (Block.of (Compiled.ofDraft d).code span.1 (span.1 + span.2)).instrs := by
  have each : (ranges d.blocks).toList.map (fun span =>
      blockRanges (Block.of (Compiled.ofDraft d).code span.1 (span.1 + span.2)).instrs) =
        d.blocks.toList.map fun block => (numbersIn block).map fun index => (ranges d.blocks).getD index (0, 0) := by
    apply List.ext_getElem?
    intro index
    rw [List.getElem?_map, List.getElem?_map, Array.getElem?_toList, Array.getElem?_toList, ranges_getElem?]
    cases found : d.blocks[index]? with
    | none => rfl
    | some block =>
      rw [Option.map_some, Option.map_some, Option.map_some,
        (isLinked_ofDraft d).block_of isDraft found (Nat.le_refl _), blockRanges_eq]
  have numbered := congrArg (List.map fun index => (ranges d.blocks).getD index (0, 0)) isDraft.numbers
  have size : (ranges d.blocks).size = d.blocks.size := by
    rw [← Array.length_toList, ranges_toList, List.length_mapIdx, Array.length_toList]
  rw [List.map_cons, List.map_flatMap, List.flatMap_def, ← each, ← List.range_eq_range', ← size,
    map_getD_range] at numbered
  rw [← numbered, List.tail_cons, numbered, List.flatMap_def]

deriving instance DecidableEq for Compiled

/-- The pipeline of `stone |> overlay(tex(moss |> mask(tex(2x2 #ffffff)))) |> opacity(128)`. -/
def maskedMoss : Pipeline :=
  ⟨.texture "stone" 0, [⟨"overlay", [⟨none, .nested ⟨.texture "moss" 21,
    [⟨"mask", [⟨none, .nested ⟨.fill 2 2 "#ffffff" 38, []⟩, 34⟩], 29⟩]⟩, 17⟩], 9⟩,
    ⟨"opacity", [⟨none, .int 128, 65⟩], 57⟩]⟩

theorem Tiles.le {spans : List (Nat × Nat)} : ∀ {start stop : Nat}, Tiles start spans stop → start ≤ stop := by
  induction spans with
  | nil => exact fun same => Nat.le_of_eq same
  | cons span rest ih =>
    intro start stop tiles
    have later := ih tiles.2.2
    omega

/-- The pipeline of `stone |> overlay(tex=moss, src=tex(dirt |> invert))`, which gives the overlay its texture twice. -/
def overlaidTwice : Pipeline :=
  ⟨.texture "stone" 0, [⟨"overlay", [⟨some "tex", .ident "moss", 17⟩,
    ⟨some "src", .nested ⟨.texture "dirt" 35, [⟨"invert", [], 43⟩]⟩, 27⟩], 9⟩]⟩

end TextureLoom.Compile
