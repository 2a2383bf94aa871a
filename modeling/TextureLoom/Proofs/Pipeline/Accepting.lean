import TextureLoom.Proofs.Pipeline.Parsing

set_option autoImplicit false

namespace TextureLoom.Pipeline

open Source

/-- The tokens that may stand behind a phrase: it is read up to there, and no further. -/
def Phrase.endsAt : Phrase → Kind → Bool
  | .base _, kind | .call _, kind | .nested _, kind => endsName kind
  | .args _, kind | .nameArgs _, kind => kind = .closeParen
  | _, kind => endsName kind && kind ≠ .pipe

theorem endsName_of_delimiter {token : Token} {rest : List Token}
    (delimits : token.kind = .closeParen ∨ token.kind = .comma) : endsName (next (token :: rest)) := by
  rw [next]
  rcases delimits with same | same <;> rw [same] <;> rfl

theorem Phrase.endsAt_of_closes {phrase : Phrase} {token : Token} {rest : List Token}
    (closes : token.kind = .closeParen) : phrase.endsAt (next (token :: rest)) := by
  rw [next, closes]
  cases phrase <;> rfl

theorem Phrase.arg_endsAt_of_comma {a : Arg} {token : Token} {rest : List Token} (comma : token.kind = .comma) :
    (Phrase.arg a).endsAt (next (token :: rest)) := by
  rw [next, comma]
  rfl

theorem Phrase.endsName_of_endsAt {phrase : Phrase} {kind : Kind} (ends : phrase.endsAt kind) : endsName kind := by
  cases phrase with
  | base | call | nested => exact ends
  | args | nameArgs =>
    rw [of_decide_eq_true ends]
    rfl
  | _ => exact (Bool.and_eq_true _ _ |>.mp ends).1

theorem ne_openParen_of_endsName {kind : Kind} (ends : endsName kind) : kind ≠ .openParen := by
  rintro rfl
  cases ends

theorem not_opensNested_of_endsName {kind : Kind} (ends : endsName kind) : ¬opensNested kind := by
  cases kind <;> simp_all [endsName, opensNested]

namespace Derives

variable {room : Nat} {tokens middle rest : List Token}

/-- What ends stages ends what stands in front of them. -/
theorem ends_of_stages {calls : List Call} (stages : Derives room (.stages calls) middle rest)
    (ends : endsName (next rest)) : endsName (next middle) := by
  rcases stages.next_of_stages with arrow | rfl
  · rw [arrow, endsName]
  · exact ends

/-- No base takes a parenthesis or an end behind the keyword, nor leaves it in front of one for a name. -/
theorem not_endsName_of_base {b : Base} (derives : Derives room (.base b) tokens rest) :
    next tokens ≠ .openParen ∧ ¬endsName (next tokens) := by
  rcases derives.next_of_base with ⟨_, found⟩ | ⟨_, found⟩ | ⟨_, found⟩ <;> simp [found, endsName]

theorem second_of_base {b : Base} (derives : Derives room (.base b) tokens rest) (ends : endsName (next rest))
    (isKeyword : next tokens = .ident "tex") : endsName (next tokens.tail) := by
  cases derives with
  | name => exact ends
  | _ => simp [next] at isKeyword

theorem second_of_top {p : Pipeline} (derives : Derives room (.top p) tokens rest) (ends : endsName (next rest)) :
    next tokens.tail ≠ .equals := by
  have base {b : Base} {tokens rest : List Token} (derives : Derives room (.base b) tokens rest)
      (ends : endsName (next rest)) : next tokens.tail ≠ .equals := by
    cases derives with
    | fill cross =>
      rcases cross with cross | cross | cross <;> simp [next, cross]
    | sheet opens => simp [opens]
    | canvas opens => simp [opens]
    | name =>
      intro isEquals
      rw [List.tail_cons] at isEquals
      rw [isEquals] at ends
      cases ends
    | literal =>
      intro isEquals
      rw [List.tail_cons] at isEquals
      rw [isEquals] at ends
      cases ends
  cases derives with
  | topName ended =>
    intro isEquals
    rw [List.tail_cons] at isEquals
    rw [isEquals] at ended
    cases ended
  | topNested opens => simp [opens]
  | topKeyword derives =>
    rw [List.tail_cons]
    rcases derives.next_of_base with ⟨_, found⟩ | ⟨_, found⟩ | ⟨_, found⟩ <;> simp [found]
  | top derives stages => exact base derives (stages.ends_of_stages ends)

theorem length_lt_of_nested {p : Pipeline} (derives : Derives room (.nested p) tokens rest) :
    rest.length < tokens.length := by
  cases derives with
  | nestedName _ _ derives _ =>
    have := derives.length_le
    simp only [List.length_cons] at this ⊢
    omega
  | nestedTop _ derives _ =>
    have := derives.length_le
    simp only [List.length_cons] at this ⊢
    omega
  | nestedBase derives =>
    have := derives.length_le
    simp only [List.length_cons]
    omega

end Derives

namespace Parser

/-- The parser reads the tokens up to `rest` as the phrase, in as many turns as there are tokens. -/
def Reads (bound stop room : Nat) (tokens rest : List Token) : Phrase → Prop
  | .top p => ∀ turns, tokens.length ≤ turns →
    whole bound (nested bound (value bound turns) room) (arg (value bound turns room)) ⟨tokens, stop⟩ =
      .ok (p, ⟨rest, stop⟩)
  | .stages calls => ∀ turns count read, tokens.length ≤ turns → tokens.length ≤ count →
    stagesBehind (call bound (arg (value bound turns room))) count read ⟨tokens, stop⟩ =
      .ok (read.toList ++ calls, ⟨rest, stop⟩)
  | .base b => ∀ turns, tokens.length ≤ turns →
    base (call bound (arg (value bound turns room))) ⟨tokens, stop⟩ = .ok (b, ⟨rest, stop⟩)
  | .call c => ∀ turns, tokens.length ≤ turns →
    call bound (arg (value bound turns room)) ⟨tokens, stop⟩ = .ok (c, ⟨rest, stop⟩)
  | .args as => ∀ turns count read closing tail, tokens.length ≤ turns → tokens.length ≤ count →
    rest = closing :: tail → closing.kind = .closeParen →
    argsBehind (arg (value bound turns room)) count read ⟨tokens, stop⟩ = .ok (read.toList ++ as, ⟨tail, stop⟩)
  | .arg a => ∀ turns, tokens.length ≤ turns → arg (value bound turns room) ⟨tokens, stop⟩ = .ok (a, ⟨rest, stop⟩)
  | .value v => ∀ turns, tokens.length ≤ turns → value bound turns room ⟨tokens, stop⟩ = .ok (v, ⟨rest, stop⟩)
  | .nested p => ∀ turns, tokens.length ≤ turns + 1 →
    nested bound (value bound turns) room ⟨tokens, stop⟩ = .ok (p, ⟨rest, stop⟩)
  | .nameArgs p => ∀ turns count, tokens.length ≤ turns → tokens.length ≤ count →
    textureName (arg (value bound turns room)) count ⟨tokens, stop⟩ = .ok (p, ⟨rest, stop⟩)

variable {room bound stop turns : Nat} {tokens rest : List Token}

theorem base_name {readCall : Parser Call} {name : String} {start close : Nat}
    (noCall : ¬((name = "anim" ∨ name = "combine") ∧ next rest = .openParen)) :
    base readCall ⟨⟨.ident name, start, close⟩ :: rest, stop⟩ = .ok (.texture name start, ⟨rest, stop⟩) := by
  have isNext : next (⟨.ident name, start, close⟩ :: rest) = .ident name := rfl
  simp only [base, offset_bind, peek_bind, peekFollowing_bind, Cursor.kind_mk, Cursor.following_mk, isNext,
    List.tail_cons, Cursor.offset_cons, Bool.and_eq_true, decide_eq_true_eq]
  rw [if_neg fun isSheet => noCall ⟨.inl isSheet.1, isSheet.2⟩,
    if_neg fun isCanvas => noCall ⟨.inr isCanvas.1, isCanvas.2⟩]
  rfl

theorem base_call {readCall : Parser Call} {start close : Nat} {after : Cursor} {c : Call} {name : String}
    (opens : next rest = .openParen)
    (read : readCall ⟨⟨.ident name, start, close⟩ :: rest, stop⟩ = .ok (c, after)) :
    (name = "anim" → base readCall ⟨⟨.ident name, start, close⟩ :: rest, stop⟩ = .ok (.sheet c, after)) ∧
      (name = "combine" → base readCall ⟨⟨.ident name, start, close⟩ :: rest, stop⟩ = .ok (.canvas c, after)) := by
  have isNext : next (⟨.ident name, start, close⟩ :: rest) = .ident name := rfl
  simp only [base, offset_bind, peek_bind, peekFollowing_bind, Cursor.kind_mk, Cursor.following_mk, isNext,
    List.tail_cons, opens, decide_true, Bool.and_true, decide_eq_true_eq]
  constructor
  · intro isSheet
    rw [if_pos isSheet, bind_of_ok read]
    rfl
  · rintro rfl
    rw [if_neg (by decide), if_pos rfl, bind_of_ok read]
    rfl

theorem base_fill {readCall : Parser Call} {width height : Int} {start close : Nat} {cross high painted : Token}
    {color : String} (crossed : cross.kind = .cross ∨ cross.kind = .ident "x" ∨ cross.kind = .ident "X")
    (isHigh : high.kind = .number height) (isPainted : textOf? painted.kind = some color) :
    base readCall ⟨⟨.number width, start, close⟩ :: cross :: high :: painted :: rest, stop⟩ =
      .ok (.fill width height color start, ⟨rest, stop⟩) := by
  change fillBehind width start ⟨cross :: high :: painted :: rest, stop⟩ = _
  have isThird : next (high :: painted :: rest) = .number height := isHigh
  simp only [fillBehind, peek_bind, Cursor.kind_mk, next, Bool.or_eq_true, decide_eq_true_eq, or_assoc]
  rw [if_pos crossed]
  simp only [advance_bind, peek_bind, Cursor.kind_mk, Cursor.advance_mk, List.tail_cons, isThird]
  rw [next]
  generalize painted.kind = kind at isPainted
  cases kind with
  | ident => cases isPainted; rfl
  | str => cases isPainted; rfl
  | _ => cases isPainted

theorem arg_named {readValue : Parser Value} {name : String} {start close : Nat} {equals : Token} {v : Value}
    {after : Cursor} (isEquals : equals.kind = .equals) (read : readValue ⟨rest, stop⟩ = .ok (v, after)) :
    arg readValue ⟨⟨.ident name, start, close⟩ :: equals :: rest, stop⟩ = .ok (⟨some name, v, start⟩, after) := by
  have isNext : next (⟨.ident name, start, close⟩ :: equals :: rest) = .ident name := rfl
  have isFollowing : next (equals :: rest) = .equals := isEquals
  simp only [arg, offset_bind, peek_bind, peekFollowing_bind, advance_bind, Cursor.kind_mk, Cursor.following_mk,
    Cursor.advance_mk, isNext, List.tail_cons, isFollowing]
  rw [bind_of_ok read]
  rfl

theorem arg_unnamed {readValue : Parser Value} {first : Token} {v : Value} {after : Cursor}
    (noName : ∀ name, first.kind = .ident name → next rest ≠ .equals)
    (read : readValue ⟨first :: rest, stop⟩ = .ok (v, after)) :
    arg readValue ⟨first :: rest, stop⟩ = .ok (⟨none, v, first.start⟩, after) := by
  simp only [arg, offset_bind, peek_bind, peekFollowing_bind, Cursor.kind_mk, Cursor.following_mk, List.tail_cons,
    Cursor.offset_cons]
  generalize isFound : next (first :: rest) = found, isFollowing : next rest = following
  split
  · exact absurd isFollowing (noName _ isFound)
  · rw [bind_of_ok read]
    rfl

theorem argsBehind_last {readArg : Parser Arg} {a : Arg} {closing : Token} {read : Array Arg}
    (readOne : readArg ⟨tokens, stop⟩ = .ok (a, ⟨closing :: rest, stop⟩)) (closes : closing.kind = .closeParen) :
    argsBehind readArg (bound + 1) read ⟨tokens, stop⟩ = .ok (read.toList ++ [a], ⟨rest, stop⟩) := by
  have isNext : next (closing :: rest) = .closeParen := closes
  rw [argsBehind, bind_of_ok readOne, accept_bind, Cursor.kind_mk, isNext, if_neg (by decide)]
  simp only [Bool.false_eq_true, ↓reduceIte]
  rw [expect_bind, Cursor.kind_mk, isNext, if_pos rfl, pure_apply, Array.toList_push]
  rfl

theorem argsBehind_more {readArg : Parser Arg} {a : Arg} {comma : Token} {read : Array Arg}
    (readOne : readArg ⟨tokens, stop⟩ = .ok (a, ⟨comma :: rest, stop⟩)) (isComma : comma.kind = .comma) :
    argsBehind readArg (bound + 1) read ⟨tokens, stop⟩ = argsBehind readArg bound (read.push a) ⟨rest, stop⟩ := by
  have isNext : next (comma :: rest) = .comma := isComma
  rw [argsBehind, bind_of_ok readOne, accept_bind, Cursor.kind_mk, isNext, if_pos rfl]
  rfl

theorem call_bare {readArg : Parser Arg} {name : String} {start close : Nat} (noOpening : next rest ≠ .openParen) :
    call bound readArg ⟨⟨.ident name, start, close⟩ :: rest, stop⟩ = .ok (⟨name, [], start⟩, ⟨rest, stop⟩) := by
  have isNext : next (⟨.ident name, start, close⟩ :: rest) = .ident name := rfl
  simp only [call, offset_bind, peek_bind, advance_bind, accept_bind, Cursor.kind_mk, Cursor.advance_mk, isNext,
    List.tail_cons, Cursor.offset_cons]
  rw [if_neg noOpening]
  rfl

theorem call_empty {readArg : Parser Arg} {name : String} {start close : Nat} {opening closing : Token}
    (opens : opening.kind = .openParen) (closes : closing.kind = .closeParen) :
    call bound readArg ⟨⟨.ident name, start, close⟩ :: opening :: closing :: rest, stop⟩ =
      .ok (⟨name, [], start⟩, ⟨rest, stop⟩) := by
  have isNext : next (⟨.ident name, start, close⟩ :: opening :: closing :: rest) = .ident name := rfl
  have isOpening : next (opening :: closing :: rest) = .openParen := opens
  have isClosing : next (closing :: rest) = .closeParen := closes
  simp only [call, offset_bind, peek_bind, advance_bind, accept_bind, Cursor.kind_mk, Cursor.advance_mk, isNext,
    isOpening, isClosing, List.tail_cons, Cursor.offset_cons, ↓reduceIte]
  rfl

theorem call_args {readArg : Parser Arg} {name : String} {start close : Nat} {opening : Token} {as : List Arg}
    {after : Cursor} (opens : opening.kind = .openParen) (more : next rest ≠ .closeParen)
    (read : argsBehind readArg bound #[] ⟨rest, stop⟩ = .ok (as, after)) :
    call bound readArg ⟨⟨.ident name, start, close⟩ :: opening :: rest, stop⟩ = .ok (⟨name, as, start⟩, after) := by
  have isNext : next (⟨.ident name, start, close⟩ :: opening :: rest) = .ident name := rfl
  have isOpening : next (opening :: rest) = .openParen := opens
  simp only [call, offset_bind, peek_bind, advance_bind, accept_bind, Cursor.kind_mk, Cursor.advance_mk, isNext,
    isOpening, List.tail_cons, Cursor.offset_cons, ↓reduceIte]
  rw [if_neg more]
  simp only [Bool.false_eq_true, ↓reduceIte]
  rw [bind_of_ok read]
  rfl

theorem stagesBehind_none {readCall : Parser Call} {read : Array Call} (noArrow : next rest ≠ .pipe) :
    stagesBehind readCall bound read ⟨rest, stop⟩ = .ok (read.toList, ⟨rest, stop⟩) := by
  cases bound with
  | zero => rfl
  | succ bound =>
    simp only [stagesBehind, accept_bind, Cursor.kind_mk]
    rw [if_neg noArrow]
    rfl

theorem stagesBehind_more {readCall : Parser Call} {read : Array Call} {start close : Nat} {c : Call} {after : Cursor}
    (readOne : readCall ⟨rest, stop⟩ = .ok (c, after)) :
    stagesBehind readCall (bound + 1) read ⟨⟨.pipe, start, close⟩ :: rest, stop⟩ =
      stagesBehind readCall bound (read.push c) after := by
  have isNext : next (⟨.pipe, start, close⟩ :: rest) = .pipe := rfl
  simp only [stagesBehind, accept_bind, Cursor.kind_mk, isNext, Cursor.advance_mk, List.tail_cons, ↓reduceIte]
  exact bind_of_ok readOne _

theorem plain_of_ok {readArg : Parser Arg} {middle : List Token} {b : Base} {calls : List Call}
    (readBase : base (call bound readArg) ⟨tokens, stop⟩ = .ok (b, ⟨middle, stop⟩))
    (readStages : stages bound readArg ⟨middle, stop⟩ = .ok (calls, ⟨rest, stop⟩)) :
    plain bound readArg ⟨tokens, stop⟩ = .ok (⟨b, calls⟩, ⟨rest, stop⟩) := by
  rw [plain, bind_of_ok readBase, bind_of_ok readStages]
  rfl

theorem extended_of_ok {readNested : Parser Pipeline} {readArg : Parser Arg} {middle : List Token} {p : Pipeline}
    {calls : List Call} (readInner : readNested ⟨tokens, stop⟩ = .ok (p, ⟨middle, stop⟩))
    (readStages : stages bound readArg ⟨middle, stop⟩ = .ok (calls, ⟨rest, stop⟩)) :
    extended bound readNested readArg ⟨tokens, stop⟩ =
      .ok ({ p with stages := p.stages ++ calls }, ⟨rest, stop⟩) := by
  rw [extended, bind_of_ok readInner, bind_of_ok readStages]
  rfl

theorem closed_of_ok {parse : Parser Pipeline} {p : Pipeline} {closing : Token}
    (read : parse ⟨tokens, stop⟩ = .ok (p, ⟨closing :: rest, stop⟩)) (closes : closing.kind = .closeParen) :
    (parse >>= fun inner => expect .closeParen >>= fun _ => pure inner) ⟨tokens, stop⟩ = .ok (p, ⟨rest, stop⟩) := by
  have isNext : next (closing :: rest) = .closeParen := closes
  rw [bind_of_ok read, expect_bind, Cursor.kind_mk, isNext, if_pos rfl]
  rfl

theorem nested_apply {readValue : Nat → Parser Value} {start close : Nat} {opening : Token}
    (opens : opening.kind = .openParen) :
    nested bound readValue (room + 1) ⟨⟨.ident "tex", start, close⟩ :: opening :: tokens, stop⟩ =
      ((if next tokens.tail = .equals then textureName (arg (readValue room)) bound
        else whole bound (nested bound readValue room) (arg (readValue room))) >>= fun inner =>
          expect .closeParen >>= fun _ => pure inner) ⟨tokens, stop⟩ := by
  have isOpening : next (opening :: tokens) = .openParen := opens
  simp only [nested, advance_bind, accept_bind, Cursor.advance_mk, Cursor.kind_mk, List.tail_cons, isOpening,
    ↓reduceIte, peekFollowing_bind, Cursor.following_mk]
  split <;> rfl

theorem nested_base {readValue : Nat → Parser Value} {start close : Nat} {b : Base}
    (noOpening : next tokens ≠ .openParen)
    (read : base (call bound (arg (readValue room))) ⟨tokens, stop⟩ = .ok (b, ⟨rest, stop⟩)) :
    nested bound readValue (room + 1) ⟨⟨.ident "tex", start, close⟩ :: tokens, stop⟩ =
      .ok (⟨b, []⟩, ⟨rest, stop⟩) := by
  simp only [nested, advance_bind, accept_bind, Cursor.advance_mk, Cursor.kind_mk, List.tail_cons]
  rw [if_neg noOpening]
  simp only [Bool.false_eq_true, ↓reduceIte]
  rw [bind_of_ok read]
  rfl

/-- A text on its own is no nested form, whatever it is. -/
theorem value_text {written : Token} {text : String} (isText : textOf? written.kind = some text)
    (ends : endsName (next rest)) :
    ∃ v : Value, v.text? = some text ∧
      value bound (turns + 1) room ⟨written :: rest, stop⟩ = .ok (v, ⟨rest, stop⟩) := by
  have simple := not_opensNested_of_endsName ends
  rw [value_apply, List.tail_cons, if_neg fun opens => simple opens.2, next]
  cases isKind : written.kind with
  | ident name =>
    rw [isKind] at isText
    exact ⟨.ident name, isText, rfl⟩
  | str content =>
    rw [isKind] at isText
    exact ⟨.str content, isText, rfl⟩
  | _ =>
    rw [isKind] at isText
    cases isText

theorem textureName_succ {key text : String} {start close : Nat} {equals written : Token}
    (isKey : key = "name" ∨ key = "tex") (isEquals : equals.kind = .equals) (isText : textOf? written.kind = some text)
    (ends : endsName (next rest)) (count : Nat) :
    textureName (arg (value bound (turns + 1) room)) (count + 1)
        ⟨⟨.ident key, start, close⟩ :: equals :: written :: rest, stop⟩ =
      if next rest = .comma then textureName (arg (value bound (turns + 1) room)) count ⟨rest.tail, stop⟩
      else .ok (⟨.texture text start, []⟩, ⟨rest, stop⟩) := by
  obtain ⟨v, isWritten, read⟩ := value_text isText ends
  rw [textureName, bind_of_ok (arg_named isEquals read)]
  simp only [isWritten, Bool.or_eq_true, decide_eq_true_eq]
  rw [if_pos isKey, accept_bind, Cursor.kind_mk]
  split <;> rfl

theorem Reads.stages {calls : List Call} (reads : Reads bound stop room tokens rest (.stages calls))
    (enough : tokens.length ≤ turns) (fits : tokens.length ≤ bound) :
    Parser.stages bound (arg (value bound turns room)) ⟨tokens, stop⟩ = .ok (calls, ⟨rest, stop⟩) :=
  reads turns bound #[] enough fits

theorem reads_of_derives {phrase : Phrase} (derives : Derives room phrase tokens rest) (fits : tokens.length ≤ bound)
    (ends : phrase.endsAt (next rest)) : Reads bound stop room tokens rest phrase := by
  induction derives with
  | topName ended stages ih =>
    intro turns enough
    rw [List.length_cons] at fits enough
    have notOpen := ne_openParen_of_endsName ended
    rw [whole_apply, if_neg fun opens => notOpen opens.2, if_neg fun isKeyword => isKeyword.2 ended]
    exact plain_of_ok (base_name fun isCall => notOpen isCall.2)
      ((ih (by omega) ends).stages (by omega) (by omega))
  | topNested opens derives stages ihNested ihStages =>
    intro turns enough
    rw [whole_apply, if_pos ⟨rfl, opens⟩]
    have shorter := derives.length_le
    have ended : endsName (next _) := stages.ends_of_stages (Phrase.endsName_of_endsAt ends)
    exact extended_of_ok (ihNested fits ended turns (by omega))
      ((ihStages (by omega) ends).stages (by omega) (by omega))
  | topKeyword derives stages ihBase ihStages =>
    intro turns enough
    rw [List.length_cons] at fits enough
    have shorter := derives.length_le
    have ended := stages.ends_of_stages (Phrase.endsName_of_endsAt ends)
    obtain ⟨notOpen, notEnd⟩ := derives.not_endsName_of_base
    rw [whole_apply, if_neg fun opens => notOpen opens.2, if_pos ⟨rfl, notEnd⟩]
    exact plain_of_ok (ihBase (by omega) ended turns (by omega))
      ((ihStages (by omega) ends).stages (by omega) (by omega))
  | top derives stages ihBase ihStages =>
    intro turns enough
    have shorter := derives.length_le
    have ended := stages.ends_of_stages (Phrase.endsName_of_endsAt ends)
    have second := derives.second_of_base ended
    rw [whole_apply, if_neg fun opens => ne_openParen_of_endsName (second opens.1) opens.2,
      if_neg fun isKeyword => isKeyword.2 (second isKeyword.1)]
    exact plain_of_ok (ihBase fits ended turns enough) ((ihStages (by omega) ends).stages (by omega) (by omega))
  | fill cross high painted => exact fun _ _ => base_fill cross high painted
  | sheet opens derives ih => exact fun turns enough => (base_call opens (ih fits ends turns enough)).1 rfl
  | canvas opens derives ih => exact fun turns enough => (base_call opens (ih fits ends turns enough)).2 rfl
  | name noCall => exact fun _ _ => base_name noCall
  | literal => exact fun _ _ => rfl
  | noStage =>
    intro turns count read _ _
    rw [List.append_nil]
    exact stagesBehind_none (by simpa using (Bool.and_eq_true _ _ |>.mp ends).2)
  | stage derives stages ihCall ihStages =>
    intro turns count read enough fitsCount
    rw [List.length_cons] at fits enough fitsCount
    obtain ⟨count, rfl⟩ : ∃ less, count = less + 1 := ⟨count - 1, by omega⟩
    have shorter := derives.length_le
    have ended := stages.ends_of_stages (Phrase.endsName_of_endsAt ends)
    rw [stagesBehind_more (ihCall (by omega) ended turns (by omega)),
      ihStages (by omega) ends turns count _ (by omega) (by omega), Array.toList_push, List.append_assoc]
    rfl
  | bare => exact fun _ _ => call_bare (ne_openParen_of_endsName ends)
  | empty opens closes => exact fun _ _ => call_empty opens closes
  | call opens derives closes ih =>
    intro turns enough
    simp only [List.length_cons] at fits enough
    have read := ih (by omega) (Phrase.endsAt_of_closes closes) turns bound #[] _ _ (by omega) (by omega) rfl
      closes
    exact call_args opens derives.next_of_args read
  | lastArg derives ih =>
    rintro turns count read closing tail enough fitsCount rfl closes
    have shorter := derives.length_le
    rw [List.length_cons] at shorter
    obtain ⟨count, rfl⟩ : ∃ less, count = less + 1 := ⟨count - 1, by omega⟩
    exact argsBehind_last (ih fits (Phrase.endsAt_of_closes closes) turns enough) closes
  | moreArgs derives comma more ih ihMore =>
    rintro turns count read closing tail enough fitsCount rfl closes
    have shorter := derives.length_le
    rw [List.length_cons] at shorter
    obtain ⟨count, rfl⟩ : ∃ less, count = less + 1 := ⟨count - 1, by omega⟩
    rw [argsBehind_more (ih fits (Phrase.arg_endsAt_of_comma comma) turns enough) comma,
      ihMore (by omega) ends turns count _ closing tail (by omega) (by omega) rfl closes, Array.toList_push,
      List.append_assoc]
    rfl
  | named equals derives ih =>
    intro turns enough
    simp only [List.length_cons] at fits enough
    exact arg_named equals (ih (by omega) ends turns (by omega))
  | unnamed derives ih =>
    intro turns enough
    refine arg_unnamed (fun name isName isEquals => ?_) (ih fits ends turns enough)
    cases derives with
    | nestedValue opens =>
      rw [isEquals] at opens
      cases opens
    | ident =>
      rw [isEquals] at ends
      cases ends
    | _ => cases isName
  | nestedValue opens derives stages ihNested ihStages =>
    intro turns enough
    have shorter := derives.length_lt_of_nested
    obtain ⟨turns, rfl⟩ : ∃ less, turns = less + 1 := ⟨turns - 1, by omega⟩
    have ended := stages.ends_of_stages (Phrase.endsName_of_endsAt ends)
    rw [value_apply, if_pos ⟨rfl, opens⟩, bind_of_ok (extended_of_ok (ihNested fits ended turns enough)
      ((ihStages (by omega) ends).stages (by omega) (by omega)))]
    rfl
  | int =>
    intro turns enough
    obtain ⟨turns, rfl⟩ : ∃ less, turns = less + 1 := ⟨turns - 1, by rw [List.length_cons] at enough; omega⟩
    rw [value_apply, if_neg (by simp [next])]
    rfl
  | str =>
    intro turns enough
    obtain ⟨turns, rfl⟩ : ∃ less, turns = less + 1 := ⟨turns - 1, by rw [List.length_cons] at enough; omega⟩
    rw [value_apply, if_neg (by simp [next])]
    rfl
  | ident =>
    intro turns enough
    obtain ⟨turns, rfl⟩ : ∃ less, turns = less + 1 := ⟨turns - 1, by rw [List.length_cons] at enough; omega⟩
    have simple := not_opensNested_of_endsName (Phrase.endsName_of_endsAt ends)
    rw [value_apply, if_neg fun opens => simple opens.2]
    rfl
  | nestedName opens isEquals derives closes ih =>
    intro turns enough
    simp only [List.length_cons] at fits enough
    rw [nested_apply opens, if_pos isEquals]
    exact closed_of_ok (ih (by omega) (Phrase.endsAt_of_closes closes) turns bound (by omega) (by omega))
      closes
  | nestedTop opens derives closes ih =>
    intro turns enough
    simp only [List.length_cons] at fits enough
    rw [nested_apply opens, if_neg (derives.second_of_top (endsName_of_delimiter (.inl closes)))]
    exact closed_of_ok (ih (by omega) (Phrase.endsAt_of_closes closes) turns (by omega)) closes
  | nestedBase derives ih =>
    intro turns enough
    rw [List.length_cons] at fits enough
    exact nested_base derives.not_endsName_of_base.1 (ih (by omega) ends turns (by omega))
  | lastName isKey isEquals isText =>
    intro turns count enough fitsCount
    simp only [List.length_cons] at enough fitsCount
    obtain ⟨turns, rfl⟩ : ∃ less, turns = less + 1 := ⟨turns - 1, by omega⟩
    obtain ⟨count, rfl⟩ : ∃ less, count = less + 1 := ⟨count - 1, by omega⟩
    rw [textureName_succ isKey isEquals isText (Phrase.endsName_of_endsAt ends), if_neg]
    rw [of_decide_eq_true ends]
    decide
  | moreNames isKey isEquals isText isComma more ih =>
    intro turns count enough fitsCount
    simp only [List.length_cons] at fits enough fitsCount
    obtain ⟨turns, rfl⟩ : ∃ less, turns = less + 1 := ⟨turns - 1, by omega⟩
    obtain ⟨count, rfl⟩ : ∃ less, count = less + 1 := ⟨count - 1, by omega⟩
    rw [textureName_succ isKey isEquals isText (endsName_of_delimiter (.inr isComma)), next, if_pos isComma]
    exact ih (by omega) ends (turns + 1) count (by omega) (by omega)

theorem program_of_derives {p : Pipeline} (derives : Derives nestingLimit (.top p) tokens [])
    (fits : tokens.length ≤ bound) : program bound ⟨tokens, stop⟩ = .ok (p, ⟨[], stop⟩) := by
  have read : whole bound (nested bound (value bound bound) nestingLimit) (arg (value bound bound nestingLimit))
      ⟨tokens, stop⟩ = .ok (p, ⟨[], stop⟩) := reads_of_derives derives fits rfl bound fits
  rw [program, bind_of_ok read]
  rfl

end Parser

end TextureLoom.Pipeline

namespace TextureLoom.Source

theorem kind_of_biteNumber {start : Nat} {negative : Bool} {cs : List Char} {b : Bite}
    (bitten : biteNumber start negative cs = .ok b) : ∀ token ∈ b.tokens, token.kind ≠ .finish := by
  unfold biteNumber at bitten
  dsimp only at bitten
  split at bitten
  · cases bitten
  · split at bitten
    · split at bitten <;> cases bitten <;> simp
    · cases bitten
      simp

theorem kind_of_biteText {start : Nat} {c : Char} {cs : List Char} {b : Bite} (bitten : biteText start c cs = .ok b) :
    ∀ token ∈ b.tokens, token.kind ≠ .finish := by
  unfold biteText at bitten
  split at bitten
  · unfold biteLiteral at bitten
    split at bitten
    · cases bitten
      simp [Bite.one]
    · cases bitten
  · split at bitten
    · cases bitten
      simp [Bite.one]
    · split at bitten
      · rename_i kind found
        cases bitten
        simp only [Bite.one, List.mem_singleton, forall_eq]
        rintro rfl
        simp only [punctuation?] at found
        repeat' split at found
        all_goals cases found
      · cases bitten

/-- No text has a token for its end. -/
theorem kind_of_bite {start : Nat} {c : Char} {cs : List Char} {b : Bite} (bitten : bite start c cs = .ok b) :
    ∀ token ∈ b.tokens, token.kind ≠ .finish := by
  unfold bite at bitten
  split at bitten
  · cases bitten
    simp
  · split at bitten
    · cases bitten
      simp
    · split at bitten
      · cases bitten
        simp [Bite.one]
      · split at bitten
        · exact kind_of_biteNumber bitten
        · split at bitten
          · exact kind_of_biteNumber bitten
          · exact kind_of_biteText bitten

theorem kind_of_lexFrom {read tokens : Array Token} {offset : Nat} {cs : List Char}
    (earlier : ∀ token ∈ read, token.kind ≠ .finish) (lexed : lexFrom read offset cs = .ok tokens) :
    ∀ token ∈ tokens, token.kind ≠ .finish := by
  fun_induction lexFrom read offset cs with
  | case1 read offset =>
    cases lexed
    exact earlier
  | case2 => cases lexed
  | case3 read offset c cs b bitten shorter ih =>
    refine ih (fun token member => ?_) lexed
    rw [← Array.mem_toList_iff, Array.toList_appendList, List.mem_append, Array.mem_toList_iff] at member
    exact member.elim (earlier token) (kind_of_bite bitten token)

theorem kind_of_lex {text : String} {tokens : List Token} (lexed : lex text = .ok tokens) :
    ∀ token ∈ tokens, token.kind ≠ .finish := by
  unfold lex at lexed
  cases isLexed : lexFrom #[] 0 text.toList with
  | error e =>
    rw [isLexed] at lexed
    cases lexed
  | ok all =>
    rw [isLexed] at lexed
    cases lexed
    exact fun token member => kind_of_lexFrom (by simp) isLexed token (Array.mem_toList_iff.mp member)

end TextureLoom.Source

namespace TextureLoom.Pipeline

open Source

/-- A text is parsed just if its tokens are a program by the grammar, to the tree that the grammar makes of them, which
is the only one. -/
theorem parse?_eq_ok_iff {text : String} {tokens : List Token} (lexed : lex text = .ok tokens) :
    (∀ p, parse? text = .ok p ↔ Derives nestingLimit (.top p) tokens []) ∧
    ∀ p q, Derives nestingLimit (.top p) tokens [] → Derives nestingLimit (.top q) tokens [] → p = q := by
  have parsed (p : Pipeline) : parse? text = .ok p ↔ ∃ after,
      Parser.program (tokens.length + 1) ⟨tokens, text.utf8ByteSize⟩ = .ok (p, after) := by
    have unfolded : parse? text =
        (Parser.program (tokens.length + 1) ⟨tokens, text.utf8ByteSize⟩).map Prod.fst := by
      rw [parse?, lexed]
      change ofTokens? tokens text.utf8ByteSize = _
      rw [ofTokens?]
      change (Parser.program (tokens.length + 1) ⟨tokens, text.utf8ByteSize⟩ >>= fun result => pure result.1) = _
      cases Parser.program (tokens.length + 1) ⟨tokens, text.utf8ByteSize⟩ <;> rfl
    rw [unfolded]
    cases Parser.program (tokens.length + 1) ⟨tokens, text.utf8ByteSize⟩ with
    | error e => simp [Except.map]
    | ok result => simp [Except.map, Prod.ext_iff]
  have complete (p : Pipeline) (derives : Derives nestingLimit (.top p) tokens []) : parse? text = .ok p :=
    (parsed p).mpr ⟨_, Parser.program_of_derives derives (Nat.le_succ _)⟩
  refine ⟨fun p => ⟨fun isParsed => ?_, complete p⟩, fun p q first second => ?_⟩
  · obtain ⟨after, ran⟩ := (parsed p).mp isParsed
    exact Parser.sound_program (kind_of_lex lexed) ran
  · exact Except.ok.inj ((complete p first).symm.trans (complete q second))

/-- The keyword as a name, in front of a nested form, and with a name in parentheses. -/
def keywords : String := "tex |> overlay(tex tex |> resize(2, h=3), tex(name=moss))"

theorem parse?_eq_ok_iff_keywords : ∃ tokens p, lex keywords = .ok tokens ∧ parse? keywords = .ok p ∧
    Derives nestingLimit (.top p) tokens [] ∧ ∀ q, Derives nestingLimit (.top q) tokens [] → q = p := by
  have lexes : (lex keywords).toOption.isSome := by decide +kernel
  have parses : (parse? keywords).toOption.isSome := by decide +kernel
  cases lexed : lex keywords with
  | error e =>
    rw [lexed] at lexes
    cases lexes
  | ok tokens =>
    cases parsed : parse? keywords with
    | error e =>
      rw [parsed] at parses
      cases parses
    | ok p =>
      have derives := ((parse?_eq_ok_iff lexed).1 p).mp parsed
      exact ⟨tokens, p, rfl, rfl, derives, fun q other => (parse?_eq_ok_iff lexed).2 q p other derives⟩

end TextureLoom.Pipeline
