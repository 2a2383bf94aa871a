import TextureLoom.Proofs.Compile.Drafting
import TextureLoom.Proofs.Pipeline.Blaming

set_option autoImplicit false

namespace TextureLoom.Compile

open Source
open Bytecode (Instr Inset)

variable {allowed : Nat → Prop}

/-- Its pipeline, if there is one, has allowed offsets only. -/
def Piece.Placed (allowed : Nat → Prop) (piece : Piece) : Prop := ∀ p, piece.nested? = some p → p.Placed allowed

/-- What the compiler makes of a part is as it should be, or it complains at an allowed offset. -/
abbrev Heeds {α : Type} (allowed : Nat → Prop) (post : α → Prop) (made : Checked α) : Prop :=
  Answers (SyntaxError.At allowed) post made

section

variable {call : Call} {a : Arg} {op what : String} {names : List String} {position room : Nat} {v : Int}

theorem heeds_checkArgs {unnamed : Nat} (placed : call.Placed allowed) :
    Heeds allowed (fun _ => True) (checkArgs call names unnamed) := by
  have go (args : List Arg) : ∀ seen, (∀ a ∈ args, a.Placed allowed) →
      Heeds allowed (fun _ => True) (checkArgs.go call names unnamed seen args) := by
    induction args with
    | nil => exact fun _ _ => trivial
    | cons a rest ih =>
      intro seen each
      have behind (seen : Nat) := ih seen fun b member => each b (List.mem_cons_of_mem a member)
      have here : allowed a.offset := (each a List.mem_cons_self).offset
      rw [checkArgs.go]
      split
      · split
        · exact behind seen
        · exact here
      · split
        · exact behind (seen + 1)
        · exact here
  exact go call.args 0 placed.args

theorem mem_of_arg? {position : Option Nat} (found : call.arg? names position = some a) : a ∈ call.args := by
  unfold Call.arg? at found
  split at found
  · rename_i b isFound
    cases found
    exact List.mem_of_find?_eq_some isFound
  · obtain ⟨i, _, atPosition⟩ := Option.bind_eq_some_iff.mp found
    exact List.mem_of_mem_filter (List.mem_of_getElem? atPosition)

theorem placed_of_arg? {position : Option Nat} (placed : call.Placed allowed)
    (found : call.arg? names position = some a) : a.Placed allowed := placed.args a (mem_of_arg? found)

theorem heeds_required {name : String} (placed : call.Placed allowed) :
    Heeds allowed (Arg.Placed allowed) (required call name names position) := by
  unfold required
  split
  · exact placed_of_arg? placed ‹_›
  · exact placed.offset

theorem heeds_intOf (placed : a.Placed allowed) : Heeds allowed (fun _ => True) (intOf op a) := by
  unfold intOf
  split
  · trivial
  · exact placed.offset

theorem heeds_intOr (placed : call.Placed allowed) : Heeds allowed (fun _ => True) (intOr call v names position) := by
  unfold intOr
  split
  · exact heeds_intOf (placed_of_arg? placed ‹_›)
  · trivial

theorem heeds_colorOf (placed : a.Placed allowed) : Heeds allowed (fun _ => True) (colorOf op a) := by
  unfold colorOf
  split
  · trivial
  · exact placed.offset

theorem heeds_side {offset : Nat} (isAllowed : allowed offset) : Heeds allowed (fun _ => True) (side what offset v) := by
  unfold side
  split
  · trivial
  · exact isAllowed

theorem heeds_sideOf (placed : a.Placed allowed) : Heeds allowed (fun _ => True) (sideOf op what a) :=
  (heeds_intOf placed).bind fun _ _ => heeds_side placed.offset

theorem heeds_coordinateOf (placed : a.Placed allowed) : Heeds allowed (fun _ => True) (coordinateOf a) := by
  apply (heeds_intOf placed).bind
  intro v _
  split
  · trivial
  · exact placed.offset

theorem heeds_channelsOf (placed : a.Placed allowed) : Heeds allowed (fun _ => True) (channelsOf a) := by
  unfold channelsOf
  split
  · exact placed.offset
  · rename_i text _
    generalize (0 : UInt8) = bits
    induction text.toList generalizing bits with
    | nil => trivial
    | cons c rest ih =>
      rw [List.foldlM_cons]
      split
      · exact ih _
      · exact placed.offset

theorem heeds_animationWord (placed : call.Placed allowed) :
    Heeds allowed (fun _ => True) (animationWord call what names position) := by
  unfold animationWord
  split
  · trivial
  · have isArg := placed_of_arg? placed ‹_›
    apply (heeds_intOf isArg).bind
    intro v _
    split
    · trivial
    · exact isArg.offset

theorem heeds_animationRate (placed : call.Placed allowed) :
    Heeds allowed (fun _ => True) (animationRate call position) := by
  unfold animationRate
  split
  · trivial
  · have isArg := placed_of_arg? placed ‹_›
    apply (heeds_intOf isArg).bind
    intro v _
    split
    · exact isArg.offset
    · split <;> trivial

theorem heeds_animationAxis (placed : call.Placed allowed) : Heeds allowed (fun _ => True) (animationAxis call) := by
  unfold animationAxis
  split
  · trivial
  · split
    · trivial
    · exact (placed_of_arg? placed ‹_›).offset

theorem heeds_animationOf {shift : Nat} (placed : call.Placed allowed) :
    Heeds allowed (fun _ => True) (animationOf call shift) := by
  apply (heeds_animationWord placed).bind
  intro _ _
  apply (heeds_animationWord placed).bind
  intro _ _
  apply (heeds_animationWord placed).bind
  intro _ _
  apply (heeds_animationRate placed).bind
  intro _ _
  split
  · exact (heeds_animationAxis placed).bind fun _ _ => trivial
  · apply (heeds_intOf (placed_of_arg? placed ‹_›)).bind
    intro _ _
    exact (heeds_animationAxis placed).bind fun _ _ => trivial

theorem heeds_pieceOf (placed : a.Placed allowed) : Heeds allowed (Piece.Placed allowed) (pieceOf op room a) := by
  have named (text : String) : Piece.Placed allowed (.name text) := fun p isNested => nomatch isNested
  cases placed with
  | mk isAllowed value =>
    unfold pieceOf
    split
    · exact named _
    · exact named _
    · exact named _
    · rename_i p _ isNested
      obtain rfl : _ = Value.nested p := isNested
      split
      · exact isAllowed
      · intro q same
        cases same
        cases value with
        | nested placed => exact placed
    · exact isAllowed

theorem heeds_insetsOf (args : List Arg) (done : Array (Inset Piece)) (each : ∀ a ∈ args, a.Placed allowed)
    (before : ∀ inset ∈ done, inset.source.Placed allowed) :
    Heeds allowed (fun insets => ∀ inset ∈ insets, inset.source.Placed allowed) (insetsOf room args done) := by
  induction args, done using insetsOf.induct with
  | case1 done ax ay source rest ih =>
    simp only [List.mem_cons, forall_eq_or_imp] at each
    obtain ⟨isX, isY, isSource, behind⟩ := each
    rw [insetsOf]
    apply (heeds_coordinateOf isX).bind
    intro x _
    apply (heeds_coordinateOf isY).bind
    intro y _
    apply (heeds_pieceOf isSource).bind
    intro piece isPiece
    apply ih x y piece behind
    intro inset member
    rcases Array.mem_push.mp member with earlier | rfl
    · exact before inset earlier
    · exact isPiece
  | case2 args done short =>
    unfold insetsOf
    split
    · exact absurd rfl (short _ _ _ _)
    · exact fun inset member => before inset (Array.mem_toList_iff.mp member)

/-- The pipelines in an instruction have allowed offsets only. -/
def InstrPlaced (allowed : Nat → Prop) (i : Instr Piece) : Prop := ∀ piece ∈ i.sources, piece.Placed allowed

theorem instrPlaced_of_single {i : Instr Piece} {piece : Piece} (single : i.sources = [piece])
    (placed : piece.Placed allowed) : InstrPlaced allowed i := by
  rw [InstrPlaced, single]
  simpa using placed

theorem instrPlaced_of_nil {i : Instr Piece} (none : i.sources = []) : InstrPlaced allowed i := by
  rw [InstrPlaced, none]
  exact fun piece member => nomatch member

theorem heeds_canvasInstr (placed : call.Placed allowed) :
    Heeds allowed (InstrPlaced allowed) (canvasInstr room call) := by
  unfold canvasInstr
  split
  · exact (placed.args _ (List.mem_of_find?_eq_some ‹_›)).offset
  · split
    · rename_i aw ah insets written
      have each := placed.args
      rw [written] at each
      simp only [List.mem_cons, forall_eq_or_imp] at each
      obtain ⟨isWidth, isHeight, behind⟩ := each
      split
      · exact placed.offset
      · apply (heeds_sideOf isWidth).bind
        intro w _
        apply (heeds_sideOf isHeight).bind
        intro h _
        split
        · exact placed.offset
        · apply (heeds_insetsOf insets #[] behind (by simp)).bind
          intro done each piece member
          obtain ⟨inset, isInset, rfl⟩ := List.mem_map.mp member
          exact each inset isInset
    · exact placed.offset

theorem heeds_baseInstr {b : Base} (placed : b.Placed allowed) :
    Heeds allowed (InstrPlaced allowed) (baseInstr room b) := by
  cases placed with
  | texture isAllowed => exact instrPlaced_of_single rfl fun p isNested => nomatch isNested
  | fill isAllowed =>
    apply (heeds_side isAllowed).bind
    intro w _
    apply (heeds_side isAllowed).bind
    intro h _
    split
    · exact instrPlaced_of_nil rfl
    · exact isAllowed
  | sheet placed =>
    apply (heeds_checkArgs placed).bind
    intro _ _
    split
    · exact placed.offset
    · have isArg := placed_of_arg? placed ‹_›
      apply (heeds_animationOf placed).bind
      intro params _
      apply (heeds_pieceOf isArg).bind
      exact fun piece isPiece => instrPlaced_of_single rfl isPiece
  | canvas placed => exact heeds_canvasInstr placed

theorem heeds_stageInstr (placed : call.Placed allowed) :
    Heeds allowed (InstrPlaced allowed) (stageInstr room call) := by
  have check {unnamed : Nat} {names : List String} {next : Unit → Checked (Instr Piece)}
      (heeds : Heeds allowed (InstrPlaced allowed) (next ())) :
      Heeds allowed (InstrPlaced allowed) (checkArgs call names unnamed >>= next) :=
    (heeds_checkArgs placed).bind fun _ _ => heeds
  unfold stageInstr
  split
  case h_1 | h_2 =>
    -- overlay, mask
    apply check
    apply (heeds_required placed).bind
    intro a isArg
    apply (heeds_pieceOf isArg).bind
    exact fun piece isPiece => instrPlaced_of_single rfl isPiece
  case h_3 =>
    -- lowpart
    apply check
    apply (heeds_required placed).bind
    intro percentArg isPercent
    apply (heeds_intOf isPercent).bind
    intro percent _
    split
    · exact isPercent.offset
    · apply (heeds_required placed).bind
      intro a isArg
      apply (heeds_pieceOf isArg).bind
      exact fun piece isPiece => instrPlaced_of_single rfl isPiece
  case h_4 =>
    -- resize
    apply check
    apply (heeds_required placed).bind
    intro aw isWidth
    apply (heeds_required placed).bind
    intro ah isHeight
    apply (heeds_sideOf isWidth).bind
    intro w _
    apply (heeds_sideOf isHeight).bind
    exact fun _ _ => instrPlaced_of_nil rfl
  case h_5 =>
    -- transform
    apply check
    apply (heeds_required placed).bind
    intro a isArg
    apply (heeds_intOf isArg).bind
    exact fun _ _ => instrPlaced_of_nil rfl
  case h_6 =>
    -- opacity
    apply check
    apply (heeds_intOr placed).bind
    exact fun _ _ => instrPlaced_of_nil rfl
  case h_7 | h_8 | h_11 =>
    -- remove_alpha, noalpha, brighten
    exact check (instrPlaced_of_nil rfl)
  case h_9 | h_13 | h_14 =>
    -- make_alpha, multiply, screen
    apply check
    apply (heeds_required placed).bind
    intro a isArg
    apply (heeds_colorOf isArg).bind
    exact fun _ _ => instrPlaced_of_nil rfl
  case h_10 =>
    -- invert
    apply check
    split
    · apply (heeds_channelsOf (placed_of_arg? placed ‹_›)).bind
      exact fun _ _ => instrPlaced_of_nil rfl
    · exact instrPlaced_of_nil rfl
  case h_12 =>
    -- contrast
    apply check
    apply (heeds_intOr placed).bind
    intro level _
    apply (heeds_intOr placed).bind
    exact fun _ _ => instrPlaced_of_nil rfl
  case h_15 =>
    -- colorize
    apply check
    apply (heeds_required placed).bind
    intro a isArg
    apply (heeds_colorOf isArg).bind
    intro color _
    apply (heeds_intOr placed).bind
    exact fun _ _ => instrPlaced_of_nil rfl
  case h_16 =>
    -- anim
    apply check
    apply (heeds_animationOf placed).bind
    exact fun _ _ => instrPlaced_of_nil rfl
  case h_17 => exact placed.offset

end

/-- A text is not malformed, or at an allowed offset. -/
def CompileError.At (allowed : Nat → Prop) : CompileError → Prop
  | .malformed e => e.At allowed
  | .tooLong _ => True

namespace Draft

/-- The pipelines of a draft that are still waiting have allowed offsets only. -/
def Placed (allowed : Nat → Prop) (d : Draft) : Prop := ∀ p ∈ d.waiting, p.Placed allowed

theorem answers_checked {d : Draft} (placed : d.Placed allowed) :
    Answers (CompileError.At allowed) (Placed allowed) d.checked := by
  unfold checked
  split
  · trivial
  · exact placed

theorem placed_add {i : Instr Piece} {block : Array (Instr Ref)} {d : Draft} (placed : d.Placed allowed)
    (instr : InstrPlaced allowed i) : (d.add i block).2.Placed allowed := by
  rcases adding : d.add i block with ⟨added, after⟩
  obtain ⟨ref, _, adds⟩ := adds_add adding
  intro p member
  rw [← Array.mem_toList_iff, adds.waiting, List.mem_append, Array.mem_toList_iff] at member
  rcases member with earlier | added
  · exact placed p earlier
  · simp only [nestedIn, List.flatMap_cons, List.flatMap_nil, List.append_nil, List.mem_filterMap] at added
    obtain ⟨piece, isSource, isNested⟩ := added
    exact instr piece isSource p isNested

theorem answers_stages {room : Nat} (calls : List Call) (each : ∀ c ∈ calls, c.Placed allowed) :
    ∀ (block : Array (Instr Ref)) (d : Draft), d.Placed allowed →
      Answers (CompileError.At allowed) (fun result => result.2.Placed allowed) (stages room calls block d) := by
  induction calls with
  | nil => exact fun _ _ placed => placed
  | cons call rest ih =>
    intro block d placed
    have heeds : Heeds allowed (InstrPlaced allowed) (stageInstr room call) :=
      heeds_stageInstr (each call List.mem_cons_self)
    rw [stages]
    split
    · rename_i e failed
      rw [failed] at heeds
      exact heeds
    · rename_i i made
      rw [made] at heeds
      have grown : (d.add i block).2.Placed allowed := placed_add placed heeds
      have checked := answers_checked grown
      dsimp only
      split
      · rename_i e failed
        rw [failed] at checked
        exact checked
      · rename_i after passed
        rw [passed] at checked
        exact ih (fun c member => each c (List.mem_cons_of_mem call member)) _ _ checked

theorem answers_block {room : Nat} {p : Pipeline} {d : Draft} (placed : d.Placed allowed)
    (isPipeline : p.Placed allowed) : Answers (CompileError.At allowed) (Placed allowed) (block room p d) := by
  cases isPipeline with
  | mk base calls =>
    have heeds : Heeds allowed (InstrPlaced allowed) (baseInstr room _) := heeds_baseInstr base
    unfold block
    split
    · rename_i e failed
      rw [failed] at heeds
      exact heeds
    · rename_i i made
      rw [made] at heeds
      have first : (d.add i #[]).2.Placed allowed := placed_add placed heeds
      exact (answers_stages _ calls _ _ first).bind fun result after => after

theorem answers_level {room : Nat} {d : Draft} (placed : d.Placed allowed) :
    Answers (CompileError.At allowed) (Placed allowed) (levels.level room d) := by
  have fold (waiting : List Pipeline) : ∀ d : Draft, (∀ p ∈ waiting, p.Placed allowed) → d.Placed allowed →
      Answers (CompileError.At allowed) (Placed allowed)
        (waiting.foldlM (fun d p => do (← d.block room p).checked) d) := by
    induction waiting with
    | nil => exact fun _ _ placed => placed
    | cons p rest ih =>
      intro d each placed
      rw [List.foldlM_cons]
      have isPipeline := each p List.mem_cons_self
      apply Answers.bind ((answers_block placed isPipeline).bind fun d placed => answers_checked placed)
      exact fun d placed => ih d (fun q member => each q (List.mem_cons_of_mem p member)) placed
  rw [levels.level, ← Array.foldlM_toList]
  exact fold _ _ (fun p member => placed p (Array.mem_toList_iff.mp member)) (by simp [Placed])

theorem answers_levels {room : Nat} : ∀ {d : Draft}, d.Placed allowed →
    Answers (CompileError.At allowed) (Placed allowed) (levels room d) := by
  induction room with
  | zero => exact answers_level
  | succ room ih => exact fun placed => (answers_level placed).bind fun d after => ih after

theorem answers_ofPipeline {p : Pipeline} (placed : p.Placed allowed) :
    Answers (CompileError.At allowed) (Placed allowed) (ofPipeline p) := by
  have empty : Placed allowed {} := by simp [Placed]
  apply (answers_block empty placed).bind
  intro d first
  exact (answers_levels first).bind fun d after => answers_checked after

end Draft

/-- A token starts here, or the text ends. -/
def IsSite (text : String) (tokens : List Token) (offset : Nat) : Prop :=
  offset = text.utf8ByteSize ∨ ∃ t ∈ tokens, offset = t.start

/-- Where an error is reported: by the lexer at what it rejects, else at a token or the end. -/
def Reported (text : String) (e : SyntaxError) : Prop :=
  match lex text with
  | .error _ => ∃ before after, text = before ++ after ∧ e.offset = before.utf8ByteSize ∧
      Rejects after.toList e.complaint
  | .ok tokens => IsSite text tokens e.offset

section

variable {text : String} {tokens : List Token}

theorem cuts_of_isSite {offset : Nat} (lexed : lex text = .ok tokens) (site : IsSite text tokens offset) :
    Cuts text offset := by
  rcases site with rfl | ⟨t, member, rfl⟩
  · exact cuts_end text
  · exact cuts_start lexed t member

theorem answers_of_lex (lexed : lex text = .ok tokens) :
    Answers (SyntaxError.At (IsSite text tokens)) (Pipeline.Placed (IsSite text tokens)) (Pipeline.parse? text) :=
  Pipeline.answers_parse? lexed (fun t member => .inr ⟨t, member, rfl⟩) (.inl rfl)

theorem answers_ofText (lexed : lex text = .ok tokens) :
    Answers (CompileError.At (IsSite text tokens)) (fun _ => True) (Compiled.ofText text) := by
  have answers := answers_of_lex lexed
  unfold Compiled.ofText
  split
  · rename_i e failed
    rw [failed] at answers
    exact answers
  · rename_i p parsed
    rw [parsed] at answers
    exact (Draft.answers_ofPipeline answers).bind fun _ _ => trivial

theorem reported_of_lex {e : SyntaxError} (failed : lex text = .error e) : Cuts text e.offset ∧ Reported text e := by
  obtain ⟨before, after, split, here, rejects⟩ := rejects_of_lex failed
  have joined : text = String.ofList before ++ String.ofList after := by
    rw [← String.ofList_append, ← split, String.ofList_toList]
  rw [Reported, failed, here]
  refine ⟨cuts_of_split split, String.ofList before, String.ofList after, joined, ?_, ?_⟩
  · rw [String.utf8ByteSize_ofList]
  · rw [String.toList_ofList]
    exact rejects

end

/-- Errors are reported where the text can be cut, whichever pass finds them. -/
theorem reported_of_error {text : String} {e : SyntaxError}
    (failed : lex text = .error e ∨ Pipeline.parse? text = .error e ∨ Compiled.ofText text = .error (.malformed e)) :
    e.offset ≤ text.utf8ByteSize ∧ (⟨e.offset⟩ : String.Pos.Raw).IsValid text ∧ Reported text e := by
  cases lexed : lex text with
  | error other =>
    have parsed : Pipeline.parse? text = .error other := by
      rw [Pipeline.parse?, lexed]
      rfl
    have same : other = e := by
      rw [lexed, parsed, Compiled.ofText, parsed] at failed
      simpa using failed
    subst same
    obtain ⟨cuts, place⟩ := reported_of_lex lexed
    exact ⟨cuts.1, cuts.2, place⟩
  | ok tokens =>
    have site : IsSite text tokens e.offset := by
      rcases failed with rejected | unparsed | malformed
      · cases lexed.symm.trans rejected
      · have answers := answers_of_lex lexed
        rw [unparsed] at answers
        exact answers
      · have answers := answers_ofText lexed
        rw [malformed] at answers
        exact answers
    have cuts := cuts_of_isSite lexed site
    refine ⟨cuts.1, cuts.2, ?_⟩
    rw [Reported, lexed]
    exact site

/-- The literal is never closed. -/
def unclosed : String := "a // \u00e9\n\"\u00e9"

/-- The percentage is in a nested pipeline, behind literals with characters of two bytes. -/
def negative : String := "\"\u00e9\" |> overlay(tex \"\u00e9\" |> lowpart(-1, b))"

theorem reported_of_error_negative :
    (lex unclosed = .error ⟨8, .unterminatedString⟩ ∧ (⟨8⟩ : String.Pos.Raw).IsValid unclosed ∧
      Reported unclosed ⟨8, .unterminatedString⟩) ∧
    Compiled.ofText negative = .error (.malformed ⟨36, .percentNotPositive⟩) ∧
      (⟨36⟩ : String.Pos.Raw).IsValid negative ∧ Reported negative ⟨36, .percentNotPositive⟩ := by
  have rejected : lex unclosed = .error ⟨8, .unterminatedString⟩ := by decide +kernel
  have reported : (match Compiled.ofText negative with
      | .error e => some e
      | .ok _ => none) = some (.malformed ⟨36, .percentNotPositive⟩) := by decide +kernel
  have malformed : Compiled.ofText negative = .error (.malformed ⟨36, .percentNotPositive⟩) := by
    cases made : Compiled.ofText negative with
    | ok c =>
      rw [made] at reported
      cases reported
    | error e =>
      rw [made] at reported
      exact congrArg Except.error (Option.some.inj reported)
  obtain ⟨_, valid, place⟩ := reported_of_error (.inl rejected)
  obtain ⟨_, validToo, placeToo⟩ := reported_of_error (.inr (.inr malformed))
  exact ⟨⟨rejected, valid, place⟩, malformed, validToo, placeToo⟩

end TextureLoom.Compile
