import TextureLoom.Compile.Layout
import TextureLoom.Proofs.Bytecode.Parts
import TextureLoom.Proofs.Compile.Reading

set_option autoImplicit false

namespace TextureLoom.Compile

open Bytecode (Instr threadAll)

/-- A pipeline that has a block number; `room` more levels may be nested in it. -/
structure Job where
  room : Nat
  pipeline : Pipeline

def Piece.nested? : Piece → Option Pipeline
  | .name _ => none
  | .nested p => some p

/-- The pipelines nested in some instructions, in order. -/
def nestedIn (instrs : List (Instr Piece)) : List Pipeline := instrs.flatMap fun i => i.sources.filterMap Piece.nested?

theorem nestedIn_append (first second : List (Instr Piece)) :
    nestedIn (first ++ second) = nestedIn first ++ nestedIn second := List.flatMap_append

def Ref.number? : Ref → Option Nat
  | .name _ => none
  | .block index => some index

/-- The numbers of the blocks that some instructions name, in order. -/
def numbersIn (block : List (Instr Ref)) : List Nat := block.flatMap fun i => i.sources.filterMap Ref.number?

theorem numbersIn_append (first second : List (Instr Ref)) :
    numbersIn (first ++ second) = numbersIn first ++ numbersIn second := List.flatMap_append

/-- The piece that an operand of a draft was made of. -/
def Ref.piece (jobs : List Job) : Ref → Piece
  | .name text => .name text
  | .block index =>
    match jobs[index]? with
    | some job => .nested job.pipeline
    | none => .name ""

/-- The instructions of a pipeline: that of its base, then one for each stage. -/
def IsReadAs (room : Nat) (p : Pipeline) (instrs : List (Instr Piece)) : Prop :=
  ∃ first rest, baseInstr room p.base = .ok first ∧
    p.stages.mapM (stageInstr room) = .ok rest ∧ instrs = first :: rest

/-- `block` is the block of pipeline number `index`: its operands stand for the pieces of the pipeline's
instructions, and nested ones have later numbers and less room. -/
structure IsBlockOf (jobs : List Job) (index : Nat) (job : Job) (block : List (Instr Ref)) : Prop where
  found : jobs[index]? = some job
  instrs : IsReadAs job.room job.pipeline (block.map (·.map (Ref.piece jobs)))
  nested : ∀ i ∈ block, ∀ inner, Ref.block inner ∈ i.sources →
    index < inner ∧ ∃ nestedJob, jobs[inner]? = some nestedJob ∧ nestedJob.room < job.room

/-- The operand was read from some argument. -/
def IsRead (room : Nat) (piece : Piece) : Prop := ∃ op a, pieceOf op room a = .ok piece

/-- With no room left only texture names are operands. -/
theorem IsRead.nested?_eq_none {piece : Piece} (read : IsRead 0 piece) : piece.nested? = none := by
  obtain ⟨op, a, success⟩ := read
  unfold pieceOf at success
  split at success
  · cases success; rfl
  · cases success; rfl
  · cases success; rfl
  · cases success
  · cases success

theorem isRead_of_insetsOf {room : Nat} (args : List Arg) (done : Array (Bytecode.Inset Piece)) :
    ∀ {insets : List (Bytecode.Inset Piece)}, insetsOf room args done = .ok insets →
      (∀ inset ∈ done, IsRead room inset.source) → ∀ inset ∈ insets, IsRead room inset.source := by
  induction args, done using insetsOf.induct with
  | case1 done ax ay source rest ih =>
    intro insets success before
    unfold insetsOf at success
    obtain ⟨x, _, success⟩ := exists_of_bind_eq_ok success
    obtain ⟨y, _, success⟩ := exists_of_bind_eq_ok success
    obtain ⟨piece, isPiece, success⟩ := exists_of_bind_eq_ok success
    apply ih x y piece success
    intro inset member
    rcases Array.mem_push.mp member with earlier | rfl
    · exact before inset earlier
    · exact ⟨_, _, isPiece⟩
  | case2 args done short =>
    intro insets success before
    unfold insetsOf at success
    split at success
    · exact absurd rfl (short _ _ _ _)
    · cases success
      intro inset member
      exact before inset (Array.mem_toList_iff.mp member)

theorem isRead_of_stageInstr {room : Nat} {call : Call} {i : Instr Piece} (success : stageInstr room call = .ok i) :
    ∀ s ∈ i.sources, IsRead room s := by
  unfold stageInstr at success
  split at success
  case h_1 | h_2 =>
    obtain ⟨_, _, success⟩ := exists_of_bind_eq_ok success
    obtain ⟨_, _, success⟩ := exists_of_bind_eq_ok success
    obtain ⟨piece, isPiece, success⟩ := exists_of_bind_eq_ok success
    cases success
    simpa [Instr.sources] using ⟨_, _, isPiece⟩
  case h_3 =>
    obtain ⟨_, _, success⟩ := exists_of_bind_eq_ok success
    obtain ⟨_, _, success⟩ := exists_of_bind_eq_ok success
    obtain ⟨_, _, success⟩ := exists_of_bind_eq_ok success
    split at success
    · cases success
    · obtain ⟨_, _, success⟩ := exists_of_bind_eq_ok success
      obtain ⟨piece, isPiece, success⟩ := exists_of_bind_eq_ok success
      cases success
      simpa [Instr.sources] using ⟨_, _, isPiece⟩
  case h_7 | h_8 | h_11 =>
    obtain ⟨_, _, success⟩ := exists_of_bind_eq_ok success
    cases success
    simp [Instr.sources]
  case h_6 | h_16 =>
    obtain ⟨_, _, success⟩ := exists_of_bind_eq_ok success
    obtain ⟨_, _, success⟩ := exists_of_bind_eq_ok success
    cases success
    simp [Instr.sources]
  case h_5 | h_9 | h_12 | h_13 | h_14 =>
    obtain ⟨_, _, success⟩ := exists_of_bind_eq_ok success
    obtain ⟨_, _, success⟩ := exists_of_bind_eq_ok success
    obtain ⟨_, _, success⟩ := exists_of_bind_eq_ok success
    cases success
    simp [Instr.sources]
  case h_15 =>
    obtain ⟨_, _, success⟩ := exists_of_bind_eq_ok success
    obtain ⟨_, _, success⟩ := exists_of_bind_eq_ok success
    obtain ⟨_, _, success⟩ := exists_of_bind_eq_ok success
    obtain ⟨_, _, success⟩ := exists_of_bind_eq_ok success
    cases success
    simp [Instr.sources]
  case h_4 =>
    obtain ⟨_, _, success⟩ := exists_of_bind_eq_ok success
    obtain ⟨_, _, success⟩ := exists_of_bind_eq_ok success
    obtain ⟨_, _, success⟩ := exists_of_bind_eq_ok success
    obtain ⟨_, _, success⟩ := exists_of_bind_eq_ok success
    obtain ⟨_, _, success⟩ := exists_of_bind_eq_ok success
    cases success
    simp [Instr.sources]
  case h_10 =>
    obtain ⟨_, _, success⟩ := exists_of_bind_eq_ok success
    split at success
    · obtain ⟨_, _, success⟩ := exists_of_bind_eq_ok success
      cases success
      simp [Instr.sources]
    · cases success
      simp [Instr.sources]
  case h_17 => cases success

theorem isRead_of_baseInstr {room : Nat} {base : Base} {i : Instr Piece} (success : baseInstr room base = .ok i) :
    ∀ s ∈ i.sources, IsRead room s := by
  cases base with
  | texture name offset =>
    cases success
    simpa [Instr.sources] using ⟨"", ⟨none, .ident name, 0⟩, rfl⟩
  | fill width height color offset =>
    obtain ⟨_, _, success⟩ := exists_of_bind_eq_ok success
    obtain ⟨_, _, success⟩ := exists_of_bind_eq_ok success
    split at success
    · cases success
      simp [Instr.sources]
    · cases success
  | sheet call =>
    obtain ⟨_, _, success⟩ := exists_of_bind_eq_ok success
    split at success
    · cases success
    · obtain ⟨_, _, success⟩ := exists_of_bind_eq_ok success
      obtain ⟨piece, isPiece, success⟩ := exists_of_bind_eq_ok success
      cases success
      simpa [Instr.sources] using ⟨_, _, isPiece⟩
  | canvas call =>
    rw [baseInstr, canvasInstr] at success
    split at success
    · cases success
    · split at success
      · split at success
        · cases success
        · obtain ⟨_, _, success⟩ := exists_of_bind_eq_ok success
          obtain ⟨_, _, success⟩ := exists_of_bind_eq_ok success
          split at success
          · cases success
          · obtain ⟨placed, areInsets, success⟩ := exists_of_bind_eq_ok success
            cases success
            intro piece member
            obtain ⟨inset, inInsets, rfl⟩ := List.mem_map.mp member
            exact isRead_of_insetsOf _ #[] areInsets (by simp) inset inInsets
      · cases success

theorem mapM_cons_eq_ok {room : Nat} {call : Call} {rest : List Call} {instrs : List (Instr Piece)}
    (success : (call :: rest).mapM (stageInstr room) = .ok instrs) :
    ∃ i others, stageInstr room call = .ok i ∧ rest.mapM (stageInstr room) = .ok others ∧ instrs = i :: others := by
  rw [List.mapM_cons] at success
  obtain ⟨i, isStage, success⟩ := exists_of_bind_eq_ok success
  obtain ⟨others, areStages, success⟩ := exists_of_bind_eq_ok success
  cases success
  exact ⟨i, others, isStage, areStages, rfl⟩

theorem isRead_of_mapM {room : Nat} (calls : List Call) {instrs : List (Instr Piece)}
    (success : calls.mapM (stageInstr room) = .ok instrs) : ∀ i ∈ instrs, ∀ s ∈ i.sources, IsRead room s := by
  induction calls generalizing instrs with
  | nil =>
    cases success
    simp
  | cons call rest ih =>
    obtain ⟨first, others, isStage, areStages, rfl⟩ := mapM_cons_eq_ok success
    intro i member
    rcases List.mem_cons.mp member with rfl | later
    · exact isRead_of_stageInstr isStage
    · exact ih areStages i later

theorem IsReadAs.isRead {room : Nat} {p : Pipeline} {instrs : List (Instr Piece)} (read : IsReadAs room p instrs) :
    ∀ i ∈ instrs, ∀ s ∈ i.sources, IsRead room s := by
  obtain ⟨first, rest, isBase, areStages, rfl⟩ := read
  intro i member
  rcases List.mem_cons.mp member with rfl | later
  · exact isRead_of_baseInstr isBase
  · exact isRead_of_mapM _ areStages i later

/-- Nothing is nested in a pipeline that was read with no room left. -/
theorem IsReadAs.nestedIn_eq_nil {p : Pipeline} {instrs : List (Instr Piece)} (read : IsReadAs 0 p instrs) :
    nestedIn instrs = [] := by
  rw [nestedIn, List.flatMap_eq_nil_iff]
  intro i member
  rw [List.filterMap_eq_nil_iff]
  exact fun s source => (read.isRead i member s source).nested?_eq_none

theorem Ref.piece_append {jobs : List Job} (more : List Job) {index : Nat} {job : Job}
    (found : jobs[index]? = some job) : Ref.piece (jobs ++ more) (.block index) = Ref.piece jobs (.block index) := by
  have bound := (List.getElem?_eq_some_iff.mp found).1
  simp only [Ref.piece, List.getElem?_append_left bound]

/-- Pipelines numbered later change nothing for a block. -/
theorem IsBlockOf.append {jobs : List Job} (more : List Job) {index : Nat} {job : Job} {block : List (Instr Ref)}
    (isBlock : IsBlockOf jobs index job block) : IsBlockOf (jobs ++ more) index job block where
  found := by
    rw [List.getElem?_append_left (List.getElem?_eq_some_iff.mp isBlock.found).1]
    exact isBlock.found
  instrs := by
    have same : block.map (·.map (Ref.piece (jobs ++ more))) = block.map (·.map (Ref.piece jobs)) := by
      apply List.map_congr_left
      intro i member
      apply Instr.map_congr
      intro source isSource
      cases source with
      | name text => rfl
      | block inner =>
        obtain ⟨_, nestedJob, found, _⟩ := isBlock.nested i member inner isSource
        exact Ref.piece_append more found
    rw [same]
    exact isBlock.instrs
  nested := by
    intro i member inner isSource
    obtain ⟨later, nestedJob, found, less⟩ := isBlock.nested i member inner isSource
    refine ⟨later, nestedJob, ?_, less⟩
    rw [List.getElem?_append_left (List.getElem?_eq_some_iff.mp found).1]
    exact found

theorem blockLength_eq_sum (block : List (Instr Ref)) :
    blockLength block = (block.map (Instr.length Ref.size)).sum + 1 := by
  have fromTotal : ∀ total, block.foldl (fun total i => total + i.length Ref.size) total =
      total + (block.map (Instr.length Ref.size)).sum := by
    induction block with
    | nil => simp
    | cons i rest ih =>
      intro total
      rw [List.foldl_cons, ih, List.map_cons, List.sum_cons, Nat.add_assoc]
  rw [blockLength, fromTotal, Nat.add_comm]

namespace Draft

/-- From `d` to `after` the instructions `instrs` were added as `refs`: nested pipelines took the next numbers in
order. -/
structure Adds (d after : Draft) (instrs : List (Instr Piece)) (refs : List (Instr Ref)) : Prop where
  blocks : after.blocks = d.blocks
  size : after.size = d.size + (refs.map (Instr.length Ref.size)).sum
  numbered : after.numbered = d.numbered + (nestedIn instrs).length
  waiting : after.waiting.toList = d.waiting.toList ++ nestedIn instrs
  numbers : numbersIn refs = List.range' d.numbered (nestedIn instrs).length
  /-- Whatever pipelines were numbered before and are numbered later. -/
  finds : ∀ room earlier later, earlier.length = d.numbered →
    let jobs := earlier ++ (nestedIn instrs).map (Job.mk room) ++ later
    refs.map (·.map (Ref.piece jobs)) = instrs ∧
      ∀ i ∈ refs, ∀ index, Ref.block index ∈ i.sources →
        earlier.length ≤ index ∧ ∃ p, jobs[index]? = some ⟨room, p⟩

theorem Adds.refl (d : Draft) : Adds d d [] [] where
  blocks := rfl
  size := rfl
  numbered := rfl
  waiting := by simp [nestedIn]
  numbers := rfl
  finds := by simp

theorem Adds.trans {d middle after : Draft} {instrs more : List (Instr Piece)} {refs moreRefs : List (Instr Ref)}
    (first : Adds d middle instrs refs) (second : Adds middle after more moreRefs) :
    Adds d after (instrs ++ more) (refs ++ moreRefs) where
  blocks := second.blocks.trans first.blocks
  size := by rw [second.size, first.size, List.map_append, List.sum_append, Nat.add_assoc]
  numbered := by rw [second.numbered, first.numbered, nestedIn_append, List.length_append, Nat.add_assoc]
  waiting := by rw [second.waiting, first.waiting, nestedIn_append, List.append_assoc]
  numbers := by
    rw [numbersIn_append, first.numbers, second.numbers, first.numbered, nestedIn_append, List.length_append,
      List.range'_append_1]
  finds := by
    intro room earlier later counted
    have one := first.finds room earlier ((nestedIn more).map (Job.mk room) ++ later) counted
    have two := second.finds room (earlier ++ (nestedIn instrs).map (Job.mk room)) later
      (by rw [List.length_append, List.length_map, counted, first.numbered])
    simp only [nestedIn_append, List.map_append, List.append_assoc] at one two ⊢
    refine ⟨by rw [one.1, two.1], ?_⟩
    intro i member index source
    rcases List.mem_append.mp member with inFirst | inSecond
    · exact one.2 i inFirst index source
    · obtain ⟨bound, found⟩ := two.2 i inSecond index source
      exact ⟨by simp only [List.length_append] at bound; omega, found⟩

theorem threadAll_number (pieces : List Piece) (d : Draft) :
    let result := threadAll number pieces d
    let nested := pieces.filterMap Piece.nested?
    result.2.blocks = d.blocks ∧ result.2.size = d.size ∧ result.2.numbered = d.numbered + nested.length ∧
      result.2.waiting.toList = d.waiting.toList ++ nested ∧
      result.1.filterMap Ref.number? = List.range' d.numbered nested.length ∧
      ∀ room earlier later, earlier.length = d.numbered →
        let jobs := earlier ++ nested.map (Job.mk room) ++ later
        result.1.map (Ref.piece jobs) = pieces ∧
          ∀ index, Ref.block index ∈ result.1 → earlier.length ≤ index ∧ ∃ p, jobs[index]? = some ⟨room, p⟩ := by
  induction pieces generalizing d with
  | nil => simp [threadAll]
  | cons piece rest ih =>
    cases piece with
    | name text =>
      obtain ⟨blocks, size, numbered, waiting, numbers, finds⟩ := ih d
      refine ⟨blocks, size, numbered, waiting, numbers, ?_⟩
      intro room earlier later counted
      obtain ⟨back, bounds⟩ := finds room earlier later counted
      refine ⟨?_, ?_⟩
      · exact congrArg (List.cons (Piece.name text)) back
      · intro index member
        rcases List.mem_cons.mp member with different | behind
        · cases different
        · exact bounds index behind
    | nested p =>
      obtain ⟨blocks, size, numbered, waiting, numbers, finds⟩ :=
        ih { d with numbered := d.numbered + 1, waiting := d.waiting.push p }
      refine ⟨blocks, size, ?_, ?_, congrArg (List.cons d.numbered) numbers, ?_⟩
      · simp only [threadAll, number, List.filterMap_cons, Piece.nested?, List.length_cons] at numbered ⊢
        omega
      · simpa [threadAll, number, Piece.nested?] using waiting
      · intro room earlier later counted
        have next := finds room (earlier ++ [⟨room, p⟩]) later (by simp [counted])
        simp only [List.append_assoc, List.singleton_append] at next
        have first :
            (earlier ++ (⟨room, p⟩ :: ((rest.filterMap Piece.nested?).map (Job.mk room) ++ later)))[d.numbered]? =
              some ⟨room, p⟩ := by
          rw [← counted]
          simp
        simp only [threadAll, number, List.filterMap_cons, Piece.nested?, List.map_cons, List.append_assoc,
          List.cons_append]
        refine ⟨?_, ?_⟩
        · simp only [Ref.piece, first]
          exact congrArg (List.cons (Piece.nested p)) next.1
        · intro index member
          rcases List.mem_cons.mp member with same | behind
          · cases same
            exact ⟨by omega, p, first⟩
          · obtain ⟨bound, found⟩ := next.2 index behind
            exact ⟨by simp only [List.length_append] at bound; omega, found⟩

theorem adds_add {i : Instr Piece} {block added : Array (Instr Ref)} {d after : Draft}
    (adding : d.add i block = (added, after)) : ∃ ref, added = block.push ref ∧ Adds d after [i] [ref] := by
  obtain ⟨sources, state, back⟩ := Instr.thread_spec number i d
  obtain ⟨blocks, size, numbered, waiting, numbers, finds⟩ := threadAll_number i.sources d
  rcases threading : i.thread number d with ⟨ref, next⟩
  simp only [← state, threading] at sources back blocks size numbered waiting
  rw [← sources] at numbers
  simp only [add, threading, Prod.mk.injEq] at adding
  obtain ⟨rfl, rfl⟩ := adding
  refine ⟨ref, rfl, ?_⟩
  constructor
  · exact blocks
  · simp [size]
  · simpa [nestedIn] using numbered
  · simpa [nestedIn] using waiting
  · simpa [numbersIn, nestedIn] using numbers
  · intro room earlier later counted
    obtain ⟨pieces, bounds⟩ := finds room earlier later counted
    simp only [nestedIn, List.flatMap_cons, List.flatMap_nil, List.append_nil, List.map_cons, List.map_nil,
      List.mem_singleton, forall_eq]
    refine ⟨by rw [back _ pieces], ?_⟩
    intro index source
    rw [sources] at source
    exact bounds index source

theorem eq_of_checked {d after : Draft} (success : d.checked = .ok after) :
    after = d ∧ d.size ≤ Bytecode.sizeLimit := by
  unfold checked at success
  split at success
  · cases success
  · cases success
    exact ⟨rfl, by omega⟩

theorem adds_of_stages {room : Nat} (calls : List Call) :
    ∀ {block result : Array (Instr Ref)} {d after : Draft}, stages room calls block d = .ok (result, after) →
      ∃ instrs refs, calls.mapM (stageInstr room) = .ok instrs ∧ result.toList = block.toList ++ refs ∧
        Adds d after instrs refs := by
  induction calls with
  | nil =>
    intro block result d after success
    cases success
    exact ⟨[], [], rfl, by simp, Adds.refl d⟩
  | cons call rest ih =>
    intro block result d after success
    unfold stages at success
    split at success
    · cases success
    · rename_i i isStage
      rcases adding : d.add i block with ⟨extended, middle⟩
      obtain ⟨ref, pushed, added⟩ := adds_add adding
      simp only [adding] at success
      split at success
      · cases success
      · rename_i next checked
        obtain ⟨rfl, _⟩ := eq_of_checked checked
        obtain ⟨instrs, refs, areStages, appended, more⟩ := ih success
        refine ⟨i :: instrs, ref :: refs, ?_, ?_, added.trans more⟩
        · rw [List.mapM_cons, isStage, areStages]
          rfl
        · rw [appended, pushed]
          simp

/-- Drafting a pipeline adds what it is read as and makes a block of it. -/
theorem adds_of_block {d after : Draft} {room : Nat} {p : Pipeline} (success : d.block room p = .ok after) :
    ∃ middle instrs block, IsReadAs room p instrs ∧ Adds d middle instrs block ∧
      after = { middle with blocks := middle.blocks.push block, size := middle.size + 1 } := by
  unfold Draft.block at success
  split at success
  · cases success
  · rename_i first isBase
    rcases adding : d.add first #[] with ⟨start, next⟩
    obtain ⟨ref, pushed, added⟩ := adds_add adding
    simp only [adding] at success
    obtain ⟨⟨block, middle⟩, areStages, success⟩ := exists_of_bind_eq_ok success
    obtain ⟨instrs, refs, read, appended, more⟩ := adds_of_stages p.stages areStages
    have whole : block.toList = ref :: refs := by rw [appended, pushed]; simp
    cases success
    exact ⟨middle, first :: instrs, block.toList, ⟨first, instrs, isBase, read, rfl⟩, whole ▸ added.trans more, rfl⟩

/-- What is read as instructions is their block, once the pipelines nested in it have their numbers. -/
theorem Adds.isBlockOf {d middle : Draft} {jobs : List Job} {room index : Nat} {p : Pipeline}
    {instrs : List (Instr Piece)} {block : List (Instr Ref)} (adds : Adds d middle instrs block)
    (read : IsReadAs room p instrs) (counted : jobs.length = d.numbered) (isJob : jobs[index]? = some ⟨room, p⟩) :
    IsBlockOf (jobs ++ (nestedIn instrs).map (Job.mk (room - 1))) index ⟨room, p⟩ block := by
  have bound := (List.getElem?_eq_some_iff.mp isJob).1
  obtain ⟨found, nested⟩ := adds.finds (room - 1) jobs [] counted
  rw [List.append_nil] at found nested
  refine ⟨?_, ?_, ?_⟩
  · rw [List.getElem?_append_left bound, isJob]
  · rw [found]
    exact read
  · intro i member inner isSource
    obtain ⟨later, nestedPipeline, foundJob⟩ := nested i member inner isSource
    refine ⟨by omega, ⟨room - 1, nestedPipeline⟩, foundJob, ?_⟩
    rcases Nat.eq_zero_or_pos room with rfl | positive
    · rw [read.nestedIn_eq_nil, List.map_nil, List.append_nil] at foundJob
      have := (List.getElem?_eq_some_iff.mp foundJob).1
      omega
    · exact Nat.sub_lt positive Nat.one_pos

/-- `jobs` are the pipelines with a number, those in `ahead` without a block yet. -/
structure Records (jobs : List Job) (d : Draft) (ahead : List Job) : Prop where
  counted : jobs.length = d.numbered
  ahead_eq : jobs.drop d.blocks.size = ahead
  within : d.blocks.size ≤ jobs.length
  sized : d.size = (d.blocks.toList.map blockLength).sum
  /-- All numbers are given in order, the first to the pipeline itself. -/
  numbers : 0 :: d.blocks.toList.flatMap numbersIn = List.range' 0 d.numbered
  drafted : ∀ index block, d.blocks[index]? = some block → ∃ job, IsBlockOf jobs index job block

/-- The first pipeline ahead has the number of the next block. -/
theorem Records.next {jobs ahead : List Job} {d : Draft} {job : Job} (records : Records jobs d (job :: ahead)) :
    jobs[d.blocks.size]? = some job := by
  have head := congrArg (·[0]?) records.ahead_eq
  simpa using head

/-- Drafting the next pipeline gives it its block and puts what is nested in it behind all others. -/
theorem Records.block {jobs ahead : List Job} {d after : Draft} {room : Nat} {p : Pipeline}
    (records : Records jobs d (⟨room, p⟩ :: ahead)) (success : d.block room p = .ok after) :
    ∃ nested, Records (jobs ++ nested.map (Job.mk (room - 1))) after (ahead ++ nested.map (Job.mk (room - 1))) ∧
      after.waiting.toList = d.waiting.toList ++ nested ∧ (room = 0 → nested = []) := by
  obtain ⟨middle, instrs, block, read, adds, rfl⟩ := adds_of_block success
  have bound := (List.getElem?_eq_some_iff.mp records.next).1
  refine ⟨nestedIn instrs, ?_, adds.waiting, ?_⟩
  · constructor
    · simp only [List.length_append, List.length_map, records.counted]
      exact adds.numbered.symm
    · have tail := congrArg List.tail records.ahead_eq
      simp only [List.tail_drop, List.tail_cons] at tail
      simp only [adds.blocks, Array.size_push]
      rw [List.drop_append_of_le_length (by omega), tail]
    · simp only [adds.blocks, Array.size_push, List.length_append]
      omega
    · simp only [adds.blocks, adds.size, records.sized, Array.toList_push, List.map_append, List.sum_append,
        List.map_singleton, List.sum_singleton, blockLength_eq_sum, Nat.add_assoc]
    · simp only [adds.blocks, adds.numbered, Array.toList_push, List.flatMap_append, List.flatMap_singleton,
        adds.numbers]
      rw [← List.cons_append, records.numbers, ← List.range'_append_1, Nat.zero_add]
    · intro index body found
      simp only [adds.blocks, Array.getElem?_push] at found
      split at found
      · rename_i last
        cases found
        exact ⟨⟨room, p⟩, last ▸ adds.isBlockOf read records.counted records.next⟩
      · obtain ⟨job, isBlock⟩ := records.drafted index body found
        exact ⟨job, isBlock.append _⟩
  · rintro rfl
    exact read.nestedIn_eq_nil

/-- Drafting the rest of a level leaves the next level waiting. -/
theorem Records.level {room : Nat} (rest : List Pipeline) :
    ∀ {jobs : List Job} {d after : Draft},
      Records jobs d (rest.map (Job.mk room) ++ d.waiting.toList.map (Job.mk (room - 1))) →
      (room = 0 → d.waiting.toList = []) →
      rest.foldlM (fun d p => do (← d.block room p).checked) d = .ok after →
      ∃ more, Records (jobs ++ more) after (after.waiting.toList.map (Job.mk (room - 1))) ∧
        (room = 0 → after.waiting.toList = []) := by
  induction rest with
  | nil =>
    intro jobs d after records ends success
    cases success
    exact ⟨[], by simpa using records, ends⟩
  | cons p rest ih =>
    intro jobs d after records ends success
    rw [List.foldlM_cons] at success
    obtain ⟨next, step, success⟩ := exists_of_bind_eq_ok success
    obtain ⟨drafted, blockOk, checkedOk⟩ := exists_of_bind_eq_ok step
    obtain ⟨rfl, _⟩ := eq_of_checked checkedOk
    rw [List.map_cons, List.cons_append] at records
    obtain ⟨nested, extended, waiting, none⟩ := records.block blockOk
    rw [List.append_assoc, ← List.map_append, ← waiting] at extended
    have stillEnds : room = 0 → next.waiting.toList = [] := by
      intro zero
      rw [waiting, ends zero, none zero, List.append_nil]
    obtain ⟨more, records, ends⟩ := ih extended stillEnds success
    exact ⟨nested.map (Job.mk (room - 1)) ++ more, by rwa [← List.append_assoc], ends⟩

theorem Records.levels (room : Nat) :
    ∀ {jobs : List Job} {d after : Draft}, Records jobs d (d.waiting.toList.map (Job.mk room)) →
      d.levels room = .ok after → ∃ more, Records (jobs ++ more) after [] := by
  have single : ∀ room {jobs : List Job} {d after : Draft}, Records jobs d (d.waiting.toList.map (Job.mk room)) →
      levels.level room d = .ok after → ∃ more, Records (jobs ++ more) after (after.waiting.toList.map
        (Job.mk (room - 1))) ∧ (room = 0 → after.waiting.toList = []) := by
    intro room jobs d after records success
    have start : Records jobs { d with waiting := #[] } (d.waiting.toList.map (Job.mk room) ++ []) :=
      ⟨records.counted, by simpa using records.ahead_eq, records.within, records.sized, records.numbers,
        records.drafted⟩
    unfold levels.level at success
    rw [← Array.foldlM_toList] at success
    exact Records.level _ start (fun _ => rfl) success
  induction room with
  | zero =>
    intro jobs d after records success
    obtain ⟨more, extended, ends⟩ := single 0 records success
    rw [ends rfl] at extended
    exact ⟨more, extended⟩
  | succ room ih =>
    intro jobs d after records success
    obtain ⟨next, levelOk, success⟩ := exists_of_bind_eq_ok success
    obtain ⟨more, extended, _⟩ := single (room + 1) records levelOk
    obtain ⟨others, finished⟩ := ih extended success
    exact ⟨more ++ others, by rwa [← List.append_assoc]⟩

/-- The blocks of a draft are those of a pipeline and of all that is nested in it. -/
structure IsDraftOf (d : Draft) (jobs : List Job) (p : Pipeline) : Prop where
  first : jobs[0]? = some ⟨Source.nestingLimit, p⟩
  counted : jobs.length = d.blocks.size
  drafted : ∀ index block, d.blocks[index]? = some block → ∃ job, IsBlockOf jobs index job block
  numbers : 0 :: d.blocks.toList.flatMap numbersIn = List.range' 0 d.blocks.size
  size_le : (d.blocks.toList.map blockLength).sum ≤ Bytecode.sizeLimit

theorem isDraftOf_of_ofPipeline {p : Pipeline} {d : Draft} (success : Draft.ofPipeline p = .ok d) :
    ∃ jobs, IsDraftOf d jobs p := by
  obtain ⟨top, blockOk, success⟩ := exists_of_bind_eq_ok success
  obtain ⟨all, levelsOk, success⟩ := exists_of_bind_eq_ok success
  obtain ⟨rfl, small⟩ := eq_of_checked success
  have start : Records [⟨Source.nestingLimit, p⟩] {} (⟨Source.nestingLimit, p⟩ :: []) :=
    ⟨rfl, rfl, by simp, rfl, rfl, by simp⟩
  obtain ⟨nested, records, waiting, _⟩ := start.block blockOk
  rw [List.nil_append, ← List.nil_append nested, ← waiting] at records
  obtain ⟨more, finished⟩ := records.levels _ levelsOk
  have complete : d.numbered = d.blocks.size := by
    have none := congrArg List.length finished.ahead_eq
    rw [List.length_drop, List.length_nil] at none
    have within := finished.within
    have counted := finished.counted
    omega
  refine ⟨_, ?_, finished.counted.trans complete, finished.drafted, ?_, by rw [← finished.sized]; exact small⟩
  · simp
  · rw [finished.numbers, complete]

end Draft

end TextureLoom.Compile
