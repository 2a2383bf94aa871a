import TextureLoom.Proofs.Pipeline.Accepting
import TextureLoom.Proofs.Source.Words

set_option autoImplicit false

namespace TextureLoom

mutual

/-- Nested values inside each other, on the path that has the most of them. -/
def Pipeline.depth : Pipeline → Nat
  | ⟨base, stages⟩ => max base.depth (Pipeline.stagesDepth stages)

def Base.depth : Base → Nat
  | .texture .. | .fill .. => 0
  | .sheet ⟨_, args, _⟩ | .canvas ⟨_, args, _⟩ => Pipeline.argsDepth args

def Pipeline.stagesDepth : List Call → Nat
  | [] => 0
  | ⟨_, args, _⟩ :: rest => max (Pipeline.argsDepth args) (Pipeline.stagesDepth rest)

def Pipeline.argsDepth : List Arg → Nat
  | [] => 0
  | ⟨_, value, _⟩ :: rest => max value.depth (Pipeline.argsDepth rest)

def Value.depth : Value → Nat
  | .nested p => p.depth + 1
  | .int _ | .str _ | .ident _ => 0

end

namespace Pipeline

open Source

theorem stagesDepth_cons (c : Call) (rest : List Call) :
    stagesDepth (c :: rest) = max (argsDepth c.args) (stagesDepth rest) := by
  cases c
  rw [stagesDepth]

theorem argsDepth_cons (a : Arg) (rest : List Arg) :
    argsDepth (a :: rest) = max a.value.depth (argsDepth rest) := by
  cases a
  rw [argsDepth]

theorem depth_sheet (c : Call) : (Base.sheet c).depth = argsDepth c.args := by
  cases c
  rw [Base.depth]

theorem depth_canvas (c : Call) : (Base.canvas c).depth = argsDepth c.args := by
  cases c
  rw [Base.depth]

theorem stagesDepth_append (first second : List Call) :
    stagesDepth (first ++ second) = max (stagesDepth first) (stagesDepth second) := by
  induction first with
  | nil => rw [List.nil_append, stagesDepth, Nat.zero_max]
  | cons c rest ih => rw [List.cons_append, stagesDepth_cons, stagesDepth_cons, ih, Nat.max_assoc]

/-- More stages behind a pipeline. -/
theorem depth_extended (p : Pipeline) (calls : List Call) :
    Pipeline.depth { p with stages := p.stages ++ calls } = max p.depth (stagesDepth calls) := by
  cases p
  rw [Pipeline.depth, Pipeline.depth, stagesDepth_append, Nat.max_assoc]

/-- Stage arrows among some tokens. -/
def arrows (tokens : List Token) : Nat := tokens.countP (·.kind == .pipe)

theorem arrows_cons (token : Token) (tail : List Token) :
    arrows (token :: tail) = arrows tail + if token.kind = .pipe then 1 else 0 := by
  simp only [arrows, List.countP_cons, beq_iff_eq]

theorem arrows_append (first second : List Token) : arrows (first ++ second) = arrows first + arrows second :=
  List.countP_append

/-- The depth of stages, with the arrow in front of them. -/
def stagesCost : List Call → Nat
  | [] => 0
  | c :: rest => stagesDepth (c :: rest) + 1

theorem stagesCost_cons (c : Call) (rest : List Call) :
    stagesCost (c :: rest) = max (argsDepth c.args) (stagesDepth rest) + 1 := by
  rw [stagesCost, stagesDepth_cons]

theorem stagesDepth_le_stagesCost (calls : List Call) : stagesDepth calls ≤ stagesCost calls := by
  cases calls with
  | nil => exact Nat.le_refl 0
  | cons c rest => exact Nat.le_succ _

theorem stagesCost_cases (calls : List Call) : stagesDepth calls = 0 ∨ stagesCost calls = stagesDepth calls + 1 := by
  cases calls with
  | nil => exact .inl rfl
  | cons c rest => exact .inr rfl

/-- What a phrase takes of the room for nested forms, or else of arrows. -/
def Phrase.cost : Phrase → Nat
  | .top p | .nameArgs p => p.depth
  | .stages calls => stagesCost calls
  | .base b => b.depth
  | .call c => argsDepth c.args
  | .args as => argsDepth as
  | .arg a => a.value.depth
  | .value v => v.depth
  | .nested p => p.depth + 1

theorem Derives.arrows_le {room : Nat} {phrase : Phrase} {tokens rest : List Token}
    (derives : Derives room phrase tokens rest) : arrows rest ≤ arrows tokens :=
  derives.suffix.sublist.countP_le

/-- Each nested form inside another takes a level of room, or else the arrow of the stage behind a form that it is
in. -/
theorem Derives.cost_le {room : Nat} {phrase : Phrase} {tokens rest : List Token}
    (derives : Derives room phrase tokens rest) : phrase.cost + arrows rest ≤ room + arrows tokens := by
  induction derives with
  | @topName _ _ _ calls _ _ _ _ ih =>
    have extended := stagesDepth_le_stagesCost calls
    simp only [Phrase.cost, Pipeline.depth, Base.depth, arrows_cons, reduceCtorEq, ↓reduceIte] at ih ⊢
    omega
  | @topNested _ _ _ p calls _ _ _ _ nested stages ihNested ihStages =>
    have spent := nested.arrows_le
    have later := stages.arrows_le
    have extended := stagesDepth_le_stagesCost calls
    simp only [Phrase.cost, depth_extended] at ihNested ihStages ⊢
    omega
  | @topKeyword _ _ _ b calls _ _ _ base stages ihBase ihStages =>
    have spent := base.arrows_le
    have later := stages.arrows_le
    have extended := stagesDepth_le_stagesCost calls
    simp only [Phrase.cost, Pipeline.depth, arrows_cons, reduceCtorEq, ↓reduceIte] at ihBase ihStages ⊢
    omega
  | @top _ b calls _ _ _ base stages ihBase ihStages =>
    have spent := base.arrows_le
    have later := stages.arrows_le
    have extended := stagesDepth_le_stagesCost calls
    simp only [Phrase.cost, Pipeline.depth] at ihBase ihStages ⊢
    omega
  | noStage => exact Nat.add_le_add_right (Nat.zero_le _) _
  | @stage _ _ _ c calls _ _ _ call stages ihCall ihStages =>
    -- The arrow in front pays for the level that the forms in the call are on.
    have spent := call.arrows_le
    have later := stages.arrows_le
    have rest := stagesDepth_le_stagesCost calls
    simp only [Phrase.cost, stagesCost_cons, arrows_cons, ↓reduceIte] at ihCall ihStages ⊢
    omega
  | @nestedValue _ _ _ p calls _ _ _ _ nested stages ihNested ihStages =>
    -- Stages behind the form have room for as many forms as the form itself, but they start with an arrow.
    have spent := nested.arrows_le
    have later := stages.arrows_le
    have extended := stagesCost_cases calls
    simp only [Phrase.cost, Value.depth, depth_extended] at ihNested ihStages ⊢
    omega
  | @lastArg _ a _ _ _ ih =>
    simp only [Phrase.cost, argsDepth_cons, argsDepth, Nat.max_zero] at ih ⊢
    exact ih
  | @moreArgs _ a as _ _ _ _ arg isComma args ihArg ihArgs =>
    have spent := arg.arrows_le
    have later := args.arrows_le
    simp only [Phrase.cost, argsDepth_cons, arrows_cons] at ihArg ihArgs spent ⊢
    omega
  | fill | name | literal | bare | empty | int | str | ident | lastName =>
    simp only [Phrase.cost, Base.depth, argsDepth, Value.depth, Pipeline.depth, stagesDepth, arrows_cons]
    omega
  | sheet _ _ ih | canvas _ _ ih =>
    simp only [Phrase.cost, depth_sheet, depth_canvas] at ih ⊢
    exact ih
  | _ =>
    simp only [Phrase.cost, Pipeline.depth, arrows_cons, stagesDepth, Nat.max_zero] at *
    omega

end Pipeline

namespace Source

/-- Wherever these characters stand, the lexer makes tokens of them of which `reading` holds. -/
def Spells (cs : List Char) (reading : List Token → Prop) : Prop :=
  ∀ read offset rest, ∃ tokens later, reading tokens ∧
    lexFrom read offset (cs ++ rest) = lexFrom (read ++ tokens) later rest

theorem Spells.imp {cs : List Char} {reading weaker : List Token → Prop} (spells : Spells cs reading)
    (imp : ∀ tokens, reading tokens → weaker tokens) : Spells cs weaker := by
  intro read offset rest
  obtain ⟨tokens, later, holds, lexed⟩ := spells read offset rest
  exact ⟨tokens, later, imp tokens holds, lexed⟩

theorem spells_nil : Spells [] (· = []) := by
  intro read offset rest
  refine ⟨[], offset, rfl, ?_⟩
  rw [List.nil_append, Array.appendList_nil]

theorem Spells.append {cs ds : List Char} {first second : List Token → Prop} (spells : Spells cs first)
    (spellsToo : Spells ds second) :
    Spells (cs ++ ds) fun all => ∃ tokens more, first tokens ∧ second more ∧ all = tokens ++ more := by
  intro read offset rest
  obtain ⟨tokens, middle, holds, lexed⟩ := spells read offset (ds ++ rest)
  obtain ⟨more, later, holdsToo, lexedToo⟩ := spellsToo (read ++ tokens) middle rest
  refine ⟨tokens ++ more, later, ⟨tokens, more, holds, holdsToo, rfl⟩, ?_⟩
  have joined : read ++ tokens ++ more = read ++ (tokens ++ more) :=
    Array.toList_inj.mp (by simp only [Array.toList_appendList, List.append_assoc])
  rw [List.append_assoc, lexed, lexedToo, joined]

/-- Characters that spell a token of one kind. -/
def SpellsKind (cs : List Char) (kind : Kind) : Prop :=
  Spells cs fun tokens => ∃ start stop, tokens = [⟨kind, start, stop⟩]

theorem SpellsKind.append {cs ds : List Char} {kind : Kind} {reading : List Token → Prop} (first : SpellsKind cs kind)
    (spells : Spells ds reading) :
    Spells (cs ++ ds) fun all => ∃ start stop tokens, reading tokens ∧ all = ⟨kind, start, stop⟩ :: tokens := by
  refine (Spells.append first spells).imp ?_
  rintro _ ⟨_, tokens, ⟨start, stop, rfl⟩, holds, rfl⟩
  exact ⟨start, stop, tokens, holds, rfl⟩

/-- A token that is bitten off at the blank behind it. -/
theorem spellsKind_word (c : Char) (cs : List Char) {kind : Kind} (length : Nat)
    (bitten : ∀ offset rest, bite offset c (cs ++ ' ' :: rest) =
      .ok ⟨[⟨kind, offset, offset + length⟩], offset + length, ' ' :: rest⟩) : SpellsKind (c :: cs ++ [' ']) kind := by
  intro read offset rest
  have blank : bite (offset + length) ' ' rest = .ok ⟨[], offset + length + 1, rest⟩ := rfl
  refine ⟨[⟨kind, offset, offset + length⟩], offset + length + 1, ⟨_, _, rfl⟩, ?_⟩
  rw [List.append_assoc, List.singleton_append, List.cons_append, lexFrom_cons (bitten offset rest), lexFrom_cons blank,
    Array.appendList_nil]

theorem spellsKind_tex : SpellsKind ['t', 'e', 'x', ' '] (.ident "tex") :=
  spellsKind_word 't' ['e', 'x'] 3 fun _ _ => rfl

theorem spellsKind_anim : SpellsKind ['a', 'n', 'i', 'm', ' '] (.ident "anim") :=
  spellsKind_word 'a' ['n', 'i', 'm'] 4 fun _ _ => rfl

theorem spellsKind_letter : SpellsKind ['b', ' '] (.ident "b") := spellsKind_word 'b' [] 1 fun _ _ => rfl

theorem spellsKind_pipe : SpellsKind ['|', '>', ' '] .pipe := spellsKind_word '|' ['>'] 2 fun _ _ => rfl

theorem spellsKind_openParen : SpellsKind ['(', ' '] .openParen := spellsKind_word '(' [] 1 fun _ _ => rfl

theorem spellsKind_closeParen : SpellsKind [')', ' '] .closeParen := spellsKind_word ')' [] 1 fun _ _ => rfl

/-- The tokens of a text that spells some. -/
theorem exists_lex {cs : List Char} {reading : List Token → Prop} (spells : Spells cs reading) :
    ∃ tokens, lex (String.ofList cs) = .ok tokens ∧ reading tokens := by
  obtain ⟨tokens, later, holds, lexed⟩ := spells #[] 0 []
  refine ⟨tokens, ?_, holds⟩
  rw [List.append_nil, lexFrom] at lexed
  rw [lex, String.toList_ofList, lexed]
  exact congrArg Except.ok (by simp only [Array.toList_appendList, List.nil_append])

end Source

namespace Pipeline

open Source

variable {room depth count : Nat}

/-- The tokens are a call's list of one argument, with so many nested forms inside each other and so many arrows. -/
structure IsList (room depth count : Nat) (tokens : List Token) : Prop where
  arrows : arrows tokens = count
  starts : ∀ rest, next (tokens ++ rest) = .openParen
  derives : ∀ name start stop rest, ∃ as, argsDepth as = depth ∧
    Derives room (.call ⟨name, as, start⟩) (⟨.ident name, start, stop⟩ :: (tokens ++ rest)) rest

/-- The tokens are a value, with so many nested forms inside each other and so many arrows. -/
structure IsValue (room depth count : Nat) (tokens : List Token) : Prop where
  arrows : arrows tokens = count
  derives : ∀ rest, ∃ v, Value.depth v = depth ∧ Derives room (.value v) (tokens ++ rest) rest

theorem Derives.single {v : Value} {tokens rest : List Token} (derives : Derives room (.value v) tokens rest) :
    ∃ start, Derives room (.args [⟨none, v, start⟩]) tokens rest := by
  cases derives with
  | nestedValue opens nested stages => exact ⟨_, .lastArg (.unnamed (.nestedValue opens nested stages))⟩
  | int => exact ⟨_, .lastArg (.unnamed .int)⟩
  | str => exact ⟨_, .lastArg (.unnamed .str)⟩
  | ident => exact ⟨_, .lastArg (.unnamed .ident)⟩

theorem isValue_letter : Spells ['b', ' '] (IsValue room 0 0) := by
  refine Spells.imp spellsKind_letter ?_
  rintro _ ⟨start, stop, rfl⟩
  exact ⟨rfl, fun rest => ⟨_, by rw [Value.depth], .ident⟩⟩

/-- A value in parentheses. -/
theorem isList_value {cs : List Char} (spells : Spells cs (IsValue room depth count)) :
    Spells (['(', ' '] ++ (cs ++ [')', ' '])) (IsList room depth count) := by
  refine (spellsKind_openParen.append (spells.append spellsKind_closeParen)).imp ?_
  rintro _ ⟨_, _, _, ⟨tokens, _, isValue, ⟨_, _, rfl⟩, rfl⟩, rfl⟩
  refine ⟨?_, fun rest => rfl, fun name start stop rest => ?_⟩
  · simp only [arrows_cons, arrows_append, isValue.arrows, reduceCtorEq, ↓reduceIte]
    rfl
  · obtain ⟨v, deep, derives⟩ := isValue.derives (⟨.closeParen, _, _⟩ :: rest)
    obtain ⟨_, args⟩ := derives.single
    refine ⟨_, ?_, .call rfl (by simpa only [List.append_eq, List.append_assoc, List.singleton_append] using args) rfl⟩
    rw [argsDepth_cons, argsDepth, Nat.max_zero, deep]

/-- A nested form around a value takes a level of room. -/
theorem isValue_sheet {cs : List Char} (spells : Spells cs (IsList room depth count)) :
    Spells (['t', 'e', 'x', ' '] ++ (['a', 'n', 'i', 'm', ' '] ++ cs)) (IsValue (room + 1) (depth + 1) count) := by
  refine (spellsKind_tex.append (spellsKind_anim.append spells)).imp ?_
  rintro _ ⟨_, _, _, ⟨_, _, tokens, isList, rfl⟩, rfl⟩
  refine ⟨?_, fun rest => ?_⟩
  · simp only [arrows_cons, isList.arrows, reduceCtorEq, ↓reduceIte, Nat.add_zero]
  · obtain ⟨as, deep, derives⟩ := isList.derives "anim" _ _ rest
    refine ⟨_, ?_, .nestedValue rfl (.nestedBase (.sheet (isList.starts rest) derives)) .noStage⟩
    rw [Value.depth, List.append_nil, Pipeline.depth, depth_sheet, stagesDepth, Nat.max_zero, deep]

/-- A nested form with a value in a stage behind it takes an arrow, but no more room than the value. -/
theorem isValue_trailing {cs : List Char} (spells : Spells cs (IsList (room + 1) depth count)) :
    Spells (['t', 'e', 'x', ' '] ++ (['b', ' '] ++ (['|', '>', ' '] ++ (['b', ' '] ++ cs))))
      (IsValue (room + 1) (depth + 1) (count + 1)) := by
  refine (spellsKind_tex.append (spellsKind_letter.append (spellsKind_pipe.append
    (spellsKind_letter.append spells)))).imp ?_
  rintro _ ⟨_, _, _, ⟨_, _, _, ⟨_, _, _, ⟨_, _, tokens, isList, rfl⟩, rfl⟩, rfl⟩, rfl⟩
  refine ⟨?_, fun rest => ?_⟩
  · simp only [arrows_cons, isList.arrows, reduceCtorEq, ↓reduceIte, Nat.add_zero]
  · obtain ⟨as, deep, derives⟩ := isList.derives "b" _ _ rest
    refine ⟨_, ?_, .nestedValue rfl (.nestedBase (.name fun keyword => nomatch keyword.1)) (.stage derives .noStage)⟩
    rw [Value.depth, List.nil_append, Pipeline.depth, stagesDepth_cons, stagesDepth, Base.depth, deep]
    simp only [Nat.max_zero, Nat.zero_max]

theorem exists_sheets (fits : depth ≤ room) : ∃ cs, Spells cs (IsValue room depth 0) := by
  induction depth generalizing room with
  | zero => exact ⟨_, isValue_letter⟩
  | succ depth ih =>
    obtain ⟨less, rfl⟩ := Nat.exists_eq_add_of_le' (Nat.lt_of_lt_of_le depth.succ_pos fits)
    obtain ⟨cs, spells⟩ := ih (Nat.le_of_succ_le_succ fits)
    exact ⟨_, isValue_sheet (isList_value spells)⟩

theorem exists_trailing (fits : depth ≤ room + 1) (more : Nat) :
    ∃ cs, Spells cs (IsValue (room + 1) (depth + more) more) := by
  induction more with
  | zero => exact exists_sheets fits
  | succ more ih =>
    obtain ⟨cs, spells⟩ := ih
    exact ⟨_, isValue_trailing (isList_value spells)⟩

/-- The tokens are stages up to the end, so many, with no nested forms in them. -/
def IsStages (room count : Nat) (tokens : List Token) : Prop :=
  arrows tokens = count ∧ ∃ calls, stagesDepth calls = 0 ∧ Derives room (.stages calls) tokens []

theorem exists_stages (room count : Nat) : ∃ cs, Spells cs (IsStages room count) := by
  induction count with
  | zero =>
    refine ⟨_, spells_nil.imp ?_⟩
    rintro _ rfl
    exact ⟨rfl, [], by rw [stagesDepth], .noStage⟩
  | succ count ih =>
    obtain ⟨cs, spells⟩ := ih
    refine ⟨_, (spellsKind_pipe.append (spellsKind_letter.append spells)).imp ?_⟩
    rintro _ ⟨_, _, _, ⟨_, _, tokens, ⟨counted, calls, flat, derives⟩, rfl⟩, rfl⟩
    refine ⟨?_, _, ?_, .stage .bare derives⟩
    · simp only [arrows_cons, counted, reduceCtorEq, ↓reduceIte, Nat.add_zero]
    · rw [stagesDepth_cons, argsDepth, flat, Nat.max_zero]

theorem parse?_eq_map {text : String} {tokens : List Token} (lexed : lex text = .ok tokens) :
    parse? text = (Parser.program (tokens.length + 1) ⟨tokens, text.utf8ByteSize⟩).map Prod.fst := by
  rw [parse?, lexed]
  change ofTokens? tokens text.utf8ByteSize = _
  rw [ofTokens?]
  change (Parser.program (tokens.length + 1) ⟨tokens, text.utf8ByteSize⟩ >>= fun result => pure result.1) = _
  cases Parser.program (tokens.length + 1) ⟨tokens, text.utf8ByteSize⟩ <;> rfl

theorem derives_of_parse? {text : String} {tokens : List Token} {p : Pipeline} (lexed : lex text = .ok tokens)
    (parsed : parse? text = .ok p) : Derives nestingLimit (.top p) tokens [] := by
  rw [parse?_eq_map lexed] at parsed
  cases ran : Parser.program (tokens.length + 1) ⟨tokens, text.utf8ByteSize⟩ with
  | error e =>
    rw [ran] at parsed
    cases parsed
  | ok result =>
    rw [ran] at parsed
    cases parsed
    exact Parser.sound_program (kind_of_lex lexed) ran

theorem parse?_of_derives {text : String} {tokens : List Token} {p : Pipeline} (lexed : lex text = .ok tokens)
    (derives : Derives nestingLimit (.top p) tokens []) : parse? text = .ok p := by
  rw [parse?_eq_map lexed, Parser.program_of_derives derives (Nat.le_succ _)]
  rfl

/-- The parser accepts nested forms inside each other up to the limit, and as many more as there are stage arrows: it
does not count a form any more when it gets to the stages behind it. -/
theorem parse?_depth_iff (depth count : Nat) :
    (∃ text tokens p, lex text = .ok tokens ∧ arrows tokens = count ∧ parse? text = .ok p ∧ p.depth = depth) ↔
      depth ≤ nestingLimit + count := by
  constructor
  · rintro ⟨text, tokens, p, lexed, counted, parsed, rfl⟩
    have bounded := (derives_of_parse? lexed parsed).cost_le
    rw [counted] at bounded
    exact bounded
  · intro fits
    -- As many forms as there is room for are in the bases of each other, the others in stages behind each other.
    have split : min depth nestingLimit + (depth - nestingLimit) = depth := by omega
    have fitting : min depth nestingLimit ≤ 15 + 1 := Nat.min_le_right ..
    obtain ⟨cs, spells⟩ := exists_trailing fitting (depth - nestingLimit)
    rw [split] at spells
    obtain ⟨ds, spellsToo⟩ := exists_stages nestingLimit (count - (depth - nestingLimit))
    obtain ⟨tokens, lexed, _, _, _, ⟨list, more, isList, ⟨counted, calls, flat, stages⟩, rfl⟩, rfl⟩ :=
      exists_lex (spellsKind_anim.append ((isList_value spells).append spellsToo))
    obtain ⟨as, deep, call⟩ := isList.derives "anim" _ _ more
    refine ⟨_, _, _, lexed, ?_, parse?_of_derives lexed (.top (.sheet (isList.starts more) call) stages), ?_⟩
    · simp only [arrows_cons, arrows_append, isList.arrows, counted, reduceCtorEq, ↓reduceIte]
      omega
    · rw [Pipeline.depth, depth_sheet, deep, flat, Nat.max_zero]

/-- Each of the seventeen nested forms is in a stage behind the one around it. -/
def trailing : String :=
  "a |> b(tex a |> b(tex a |> b(tex a |> b(tex a |> b(tex a |> b(tex a |> b(tex a |> b(tex a |> b(tex a"
    ++ " |> b(tex a |> b(tex a |> b(tex a |> b(tex a |> b(tex a |> b(tex a |> b(tex a |> b(tex a)))))))))))))))))"

theorem not_depth_le_trailing : ¬∀ p, parse? trailing = .ok p → p.depth ≤ nestingLimit := by
  have deep : (parse? trailing).toOption.map Pipeline.depth = some 17 := by decide +kernel
  intro bounded
  cases parsed : parse? trailing with
  | error e =>
    rw [parsed] at deep
    cases deep
  | ok p =>
    rw [parsed] at deep
    have fits := bounded p parsed
    rw [Option.some.inj deep] at fits
    exact absurd fits (by decide)

end Pipeline

end TextureLoom
