import TextureLoom.Proofs.Pipeline.Grammar

set_option autoImplicit false

namespace TextureLoom.Pipeline

open Source

namespace Cursor

variable (tokens : List Token) (stop : Nat)

theorem kind_mk : (⟨tokens, stop⟩ : Cursor).kind = next tokens := by cases tokens <;> rfl

theorem following_mk : (⟨tokens, stop⟩ : Cursor).following = next tokens.tail := by
  rcases tokens with _ | ⟨_, _ | ⟨_, _⟩⟩ <;> rfl

theorem advance_mk : (⟨tokens, stop⟩ : Cursor).advance = ⟨tokens.tail, stop⟩ := rfl

theorem offset_cons (token : Token) : (⟨token :: tokens, stop⟩ : Cursor).offset = token.start := rfl

end Cursor

namespace Parser

section

variable {α β : Type} {c after : Cursor} {x : Parser α} {a : α} {wanted : Kind}

theorem bind_of_ok (ran : x c = .ok (a, after)) (f : α → Parser β) : (x >>= f) c = f a after := by
  change (x c >>= fun (a, c) => f a c) = _
  rw [ran]
  rfl

theorem bind_eq_ok {f : α → Parser β} {result : β × Cursor} :
    (x >>= f) c = .ok result ↔ ∃ a after, x c = .ok (a, after) ∧ f a after = .ok result := by
  change (x c >>= fun (a, c) => f a c) = _ ↔ _
  cases x c with
  | error e => simp [bind, Except.bind]
  | ok pair =>
    obtain ⟨a, middle⟩ := pair
    constructor
    · intro next
      exact ⟨a, middle, rfl, next⟩
    · rintro ⟨_, _, same, next⟩
      cases same
      exact next

theorem peek_bind (f : Kind → Parser β) : (peek >>= f) c = f c.kind c := rfl

theorem peekFollowing_bind (f : Kind → Parser β) : (peekFollowing >>= f) c = f c.following c := rfl

theorem offset_bind (f : Nat → Parser β) : (offset >>= f) c = f c.offset c := rfl

theorem advance_bind (f : Unit → Parser β) : (advance >>= f) c = f () c.advance := rfl

theorem pure_apply : (pure a : Parser α) c = .ok (a, c) := rfl

theorem accept_bind (f : Bool → Parser β) :
    (accept wanted >>= f) c = if c.kind = wanted then f true c.advance else f false c := by
  change (accept wanted c >>= fun (a, c) => f a c) = _
  simp only [accept, peek_bind]
  split <;> rfl

theorem expect_bind (f : Unit → Parser β) :
    (expect wanted >>= f) c =
      if c.kind = wanted then f () c.advance else .error ⟨c.offset, .expected wanted c.kind⟩ := by
  change (expect wanted c >>= fun (a, c) => f a c) = _
  simp only [expect, peek_bind]
  split <;> rfl

end

/-- What the parser makes of these tokens is what the grammar makes of them. -/
def SoundAt {α : Type} (tokens : List Token) (room : Nat) (parse : Parser α) (phrase : α → Phrase) : Prop :=
  ∀ stop a after, parse ⟨tokens, stop⟩ = .ok (a, after) →
    ∃ rest, after = ⟨rest, stop⟩ ∧ Derives room (phrase a) tokens rest

def Sound {α : Type} (room : Nat) (parse : Parser α) (phrase : α → Phrase) : Prop :=
  ∀ tokens, SoundAt tokens room parse phrase

variable {room bound : Nat} {readValue : Parser Value} {readArg : Parser Arg}

theorem sound_arg (value : Sound room readValue .value) : Sound room (arg readValue) .arg := by
  intro tokens stop a after ran
  simp only [arg, offset_bind, peek_bind, peekFollowing_bind, Cursor.kind_mk, Cursor.following_mk] at ran
  generalize isFound : next tokens = found, isFollowing : next tokens.tail = following at ran
  split at ran
  · obtain ⟨start, _, tail, rfl⟩ := eq_cons_of_next isFound (by simp)
    obtain ⟨_, _, rest, rfl⟩ := eq_cons_of_next isFollowing (by simp)
    simp only [advance_bind, Cursor.advance_mk, bind_eq_ok, pure_apply] at ran
    obtain ⟨v, middle, read, made⟩ := ran
    cases made
    obtain ⟨rest, rfl, derives⟩ := value _ _ _ _ read
    exact ⟨rest, rfl, .named rfl derives⟩
  · obtain ⟨v, middle, read, made⟩ := bind_eq_ok.mp ran
    cases made
    obtain ⟨rest, rfl, derives⟩ := value _ _ _ _ read
    refine ⟨rest, rfl, ?_⟩
    cases tokens with
    | nil => cases derives
    | cons first tail => exact .unnamed derives

theorem sound_argsBehind (arg : Sound room readArg .arg) {read : Array Arg} {tokens : List Token} {stop : Nat}
    {all : List Arg} {after : Cursor} (ran : argsBehind readArg bound read ⟨tokens, stop⟩ = .ok (all, after)) :
    ∃ as closing rest, all = read.toList ++ as ∧ after = ⟨rest, stop⟩ ∧ closing.kind = .closeParen ∧
      Derives room (.args as) tokens (closing :: rest) := by
  induction bound generalizing read tokens with
  | zero => cases ran
  | succ bound ih =>
    rw [argsBehind, bind_eq_ok] at ran
    obtain ⟨a, middle, readOne, ran⟩ := ran
    obtain ⟨rest, rfl, first⟩ := arg _ _ _ _ readOne
    simp only [accept_bind, Cursor.kind_mk, Cursor.advance_mk] at ran
    split at ran
    · rename_i isComma
      obtain ⟨_, _, tail, rfl⟩ := eq_cons_of_next isComma (by simp)
      obtain ⟨as, closing, rest, rfl, rfl, closes, more⟩ := ih ran
      exact ⟨a :: as, closing, rest, by simp, rfl, closes, .moreArgs first rfl more⟩
    · simp only [Bool.false_eq_true, ↓reduceIte, expect_bind, Cursor.kind_mk, Cursor.advance_mk] at ran
      split at ran
      · rename_i closes
        obtain ⟨_, _, tail, rfl⟩ := eq_cons_of_next closes (by simp)
        cases ran
        exact ⟨[a], _, tail, by simp, rfl, rfl, .lastArg first⟩
      · cases ran

theorem sound_call (arg : Sound room readArg .arg) : Sound room (call bound readArg) .call := by
  intro tokens stop c after ran
  simp only [call, offset_bind, peek_bind, Cursor.kind_mk] at ran
  generalize isFound : next tokens = found at ran
  split at ran
  · obtain ⟨start, _, tail, rfl⟩ := eq_cons_of_next isFound (by simp)
    simp only [advance_bind, accept_bind, Cursor.advance_mk, Cursor.kind_mk, Cursor.offset_cons, List.tail_cons] at ran
    split at ran
    · rename_i opens
      obtain ⟨_, _, tail, rfl⟩ := eq_cons_of_next opens (by simp)
      simp only [↓reduceIte, accept_bind, Cursor.advance_mk, Cursor.kind_mk, List.tail_cons] at ran
      split at ran
      · rename_i closes
        obtain ⟨_, _, tail, rfl⟩ := eq_cons_of_next closes (by simp)
        cases ran
        exact ⟨tail, rfl, .empty rfl rfl⟩
      · simp only [Bool.false_eq_true, ↓reduceIte] at ran
        obtain ⟨as, middle, readAll, made⟩ := bind_eq_ok.mp ran
        cases made
        obtain ⟨as, closing, rest, rfl, rfl, closes, derives⟩ := sound_argsBehind arg readAll
        exact ⟨rest, rfl, .call rfl (by simpa using derives) closes⟩
    · cases ran
      exact ⟨tail, rfl, .bare⟩
  · cases ran

theorem sound_stagesBehind {readCall : Parser Call} (call : Sound room readCall .call) {read : Array Call}
    {tokens : List Token} {stop : Nat} {all : List Call} {after : Cursor}
    (ran : stagesBehind readCall bound read ⟨tokens, stop⟩ = .ok (all, after)) :
    ∃ calls rest, all = read.toList ++ calls ∧ after = ⟨rest, stop⟩ ∧ Derives room (.stages calls) tokens rest := by
  induction bound generalizing read tokens with
  | zero =>
    cases ran
    exact ⟨[], tokens, by simp, rfl, .noStage⟩
  | succ bound ih =>
    simp only [stagesBehind, accept_bind, Cursor.kind_mk, Cursor.advance_mk] at ran
    split at ran
    · rename_i arrow
      obtain ⟨_, _, tail, rfl⟩ := eq_cons_of_next arrow (by simp)
      obtain ⟨c, middle, readOne, ran⟩ := bind_eq_ok.mp ran
      obtain ⟨rest, rfl, first⟩ := call _ _ _ _ readOne
      obtain ⟨calls, rest, rfl, rfl, more⟩ := ih ran
      exact ⟨c :: calls, rest, by simp, rfl, .stage first more⟩
    · cases ran
      exact ⟨[], tokens, by simp, rfl, .noStage⟩

theorem sound_stages (arg : Sound room readArg .arg) : Sound room (stages bound readArg) .stages := by
  intro tokens stop calls after ran
  obtain ⟨calls, rest, rfl, rfl, derives⟩ := sound_stagesBehind (sound_call arg) ran
  exact ⟨rest, rfl, by simpa using derives⟩

theorem sound_fillBehind {width : Int} {start close stop : Nat} {tokens : List Token} {b : Base} {after : Cursor}
    (ran : fillBehind width start ⟨tokens, stop⟩ = .ok (b, after)) :
    ∃ rest, after = ⟨rest, stop⟩ ∧ Derives room (.base b) (⟨.number width, start, close⟩ :: tokens) rest := by
  simp only [fillBehind, peek_bind, Cursor.kind_mk] at ran
  split at ran
  · rename_i cross
    simp only [Bool.or_eq_true, decide_eq_true_eq, or_assoc] at cross
    obtain ⟨_, _, tail, isTail⟩ := eq_cons_of_next (Eq.refl (next tokens)) (by rintro same; simp [same] at cross)
    rw [isTail] at ran ⊢
    simp only [advance_bind, peek_bind, Cursor.advance_mk, Cursor.kind_mk, List.tail_cons] at ran
    generalize isHigh : next tail = high at ran
    split at ran
    · obtain ⟨_, _, tail, rfl⟩ := eq_cons_of_next isHigh (by simp)
      simp only [advance_bind, peek_bind, Cursor.advance_mk, Cursor.kind_mk, List.tail_cons] at ran
      generalize isPainted : next tail = painted at ran
      split at ran
      · obtain ⟨_, _, tail, rfl⟩ := eq_cons_of_next isPainted (by simp)
        cases ran
        exact ⟨tail, rfl, .fill cross rfl rfl⟩
      · obtain ⟨_, _, tail, rfl⟩ := eq_cons_of_next isPainted (by simp)
        cases ran
        exact ⟨tail, rfl, .fill cross rfl rfl⟩
      · cases ran
    · cases ran
  · cases ran

theorem sound_base {readCall : Parser Call} (call : Sound room readCall .call) : Sound room (base readCall) .base := by
  intro tokens stop b after ran
  simp only [base, offset_bind, peek_bind, peekFollowing_bind, Cursor.kind_mk, Cursor.following_mk] at ran
  generalize isFound : next tokens = found at ran
  split at ran
  · obtain ⟨start, _, tail, rfl⟩ := eq_cons_of_next isFound (by simp)
    exact sound_fillBehind ran
  · obtain ⟨start, _, tail, rfl⟩ := eq_cons_of_next isFound (by simp)
    rw [List.tail_cons] at ran
    split at ran
    · rename_i isSheet
      simp only [Bool.and_eq_true, decide_eq_true_eq] at isSheet
      obtain ⟨rfl, opens⟩ := isSheet
      obtain ⟨c, middle, readOne, made⟩ := bind_eq_ok.mp ran
      cases made
      obtain ⟨rest, rfl, derives⟩ := call _ _ _ _ readOne
      exact ⟨rest, rfl, .sheet opens derives⟩
    · rename_i noSheet
      split at ran
      · rename_i isCanvas
        simp only [Bool.and_eq_true, decide_eq_true_eq] at isCanvas
        obtain ⟨rfl, opens⟩ := isCanvas
        obtain ⟨c, middle, readOne, made⟩ := bind_eq_ok.mp ran
        cases made
        obtain ⟨rest, rfl, derives⟩ := call _ _ _ _ readOne
        exact ⟨rest, rfl, .canvas opens derives⟩
      · rename_i noCanvas
        cases ran
        refine ⟨tail, rfl, .name ?_⟩
        simp only [Bool.and_eq_true, decide_eq_true_eq, not_and] at noSheet noCanvas
        rintro ⟨isSheet | isCanvas, opens⟩
        · exact noSheet isSheet opens
        · exact noCanvas isCanvas opens
  · obtain ⟨start, _, tail, rfl⟩ := eq_cons_of_next isFound (by simp)
    cases ran
    exact ⟨tail, rfl, .literal⟩
  · cases ran

/-- The text of a value is written as one token. -/
theorem text_of_value {v : Value} {text : String} {tokens rest : List Token} (isText : v.text? = some text)
    (derives : Derives room (.value v) tokens rest) :
    ∃ written, tokens = written :: rest ∧ textOf? written.kind = some text := by
  cases derives with
  | str => exact ⟨_, rfl, isText⟩
  | ident => exact ⟨_, rfl, isText⟩
  | int => cases isText
  | nestedValue => cases isText

theorem sound_textureName (value : Sound room readValue .value) :
    Sound room (textureName (arg readValue) bound) .nameArgs := by
  induction bound with
  | zero =>
    intro tokens stop p after ran
    cases ran
  | succ bound ih =>
    intro tokens stop p after ran
    rw [textureName, bind_eq_ok] at ran
    obtain ⟨a, middle, readOne, ran⟩ := ran
    obtain ⟨rest, rfl, derives⟩ := sound_arg value _ _ _ _ readOne
    cases derives with
    | unnamed => cases ran
    | named isEquals derives =>
      dsimp only at ran
      split at ran
      · rename_i isKey
        simp only [Bool.or_eq_true, decide_eq_true_eq] at isKey
        generalize isText : Value.text? _ = text? at ran
        cases text? with
        | none => cases ran
        | some text =>
          obtain ⟨written, rfl, isWritten⟩ := text_of_value isText derives
          simp only [accept_bind, Cursor.kind_mk, Cursor.advance_mk] at ran
          split at ran
          · rename_i isComma
            obtain ⟨_, _, tail, rfl⟩ := eq_cons_of_next isComma (by simp)
            obtain ⟨rest, rfl, more⟩ := ih _ _ _ _ ran
            exact ⟨rest, rfl, .moreNames isKey isEquals isWritten rfl more⟩
          · cases ran
            exact ⟨rest, rfl, .lastName isKey isEquals isWritten⟩
      · cases ran

/-- A base and the stages behind it. -/
def plain (bound : Nat) (arg : Parser Arg) : Parser Pipeline := do
  let first ← base (call bound arg)
  pure ⟨first, ← stages bound arg⟩

/-- A nested form and the stages behind it. -/
def extended (bound : Nat) (nested : Parser Pipeline) (arg : Parser Arg) : Parser Pipeline := do
  let inner ← nested
  let more ← stages bound arg
  pure { inner with stages := inner.stages ++ more }

/-- The keyword in front is passed over if a base follows it. -/
theorem whole_apply (bound : Nat) (readNested : Parser Pipeline) (readArg : Parser Arg) (tokens : List Token)
    (stop : Nat) :
    whole bound readNested readArg ⟨tokens, stop⟩ =
      if next tokens = .ident "tex" ∧ next tokens.tail = .openParen then
        extended bound readNested readArg ⟨tokens, stop⟩
      else if next tokens = .ident "tex" ∧ ¬endsName (next tokens.tail) then plain bound readArg ⟨tokens.tail, stop⟩
      else plain bound readArg ⟨tokens, stop⟩ := by
  have unfolded : whole bound readNested readArg = peek >>= fun found => peekFollowing >>= fun following =>
      if found = .ident "tex" && following = .openParen then extended bound readNested readArg
      else if found = .ident "tex" && !endsName following then advance >>= fun _ => plain bound readArg
      else plain bound readArg := rfl
  simp only [unfolded, peek_bind, peekFollowing_bind, Cursor.kind_mk, Cursor.following_mk, Bool.and_eq_true,
    decide_eq_true_eq, Bool.not_eq_true', Bool.not_eq_true]
  split
  · rfl
  · split <;> rfl

theorem sound_plain (arg : Sound room readArg .arg) {tokens : List Token} {stop : Nat} {p : Pipeline} {after : Cursor}
    (ran : plain bound readArg ⟨tokens, stop⟩ = .ok (p, after)) :
    ∃ b calls middle rest, p = ⟨b, calls⟩ ∧ after = ⟨rest, stop⟩ ∧ Derives room (.base b) tokens middle ∧
      Derives room (.stages calls) middle rest := by
  obtain ⟨b, _, readBase, ran⟩ := bind_eq_ok.mp ran
  obtain ⟨middle, rfl, derives⟩ := sound_base (sound_call arg) _ _ _ _ readBase
  obtain ⟨calls, _, readStages, made⟩ := bind_eq_ok.mp ran
  obtain ⟨rest, rfl, stages⟩ := sound_stages arg _ _ _ _ readStages
  cases made
  exact ⟨b, calls, middle, rest, rfl, rfl, derives, stages⟩

/-- A nested form is only read where the keyword is next. -/
def SoundNested (room : Nat) (parse : Parser Pipeline) : Prop :=
  ∀ tokens, next tokens = .ident "tex" → SoundAt tokens room parse .nested

theorem sound_extended {readNested : Parser Pipeline} (nested : SoundNested room readNested)
    (arg : Sound room readArg .arg) {tokens : List Token} {stop : Nat} {p : Pipeline} {after : Cursor}
    (isKeyword : next tokens = .ident "tex")
    (ran : extended bound readNested readArg ⟨tokens, stop⟩ = .ok (p, after)) :
    ∃ inner calls middle rest, p = { inner with stages := inner.stages ++ calls } ∧ after = ⟨rest, stop⟩ ∧
      Derives room (.nested inner) tokens middle ∧ Derives room (.stages calls) middle rest := by
  obtain ⟨inner, _, readInner, ran⟩ := bind_eq_ok.mp ran
  obtain ⟨middle, rfl, derives⟩ := nested _ isKeyword _ _ _ readInner
  obtain ⟨calls, _, readStages, made⟩ := bind_eq_ok.mp ran
  obtain ⟨rest, rfl, stages⟩ := sound_stages arg _ _ _ _ readStages
  cases made
  exact ⟨inner, calls, middle, rest, rfl, rfl, derives, stages⟩

theorem sound_whole {readNested : Parser Pipeline} (nested : SoundNested room readNested)
    (arg : Sound room readArg .arg) : Sound room (whole bound readNested readArg) .top := by
  intro tokens stop p after ran
  rw [whole_apply] at ran
  split at ran
  · rename_i opens
    obtain ⟨inner, calls, middle, rest, rfl, rfl, derives, stages⟩ := sound_extended nested arg opens.1 ran
    obtain ⟨_, _, tail, rfl⟩ := eq_cons_of_next opens.1 (by simp)
    exact ⟨rest, rfl, .topNested opens.2 derives stages⟩
  · split at ran
    · rename_i isKeyword
      obtain ⟨_, _, tail, rfl⟩ := eq_cons_of_next isKeyword.1 (by simp)
      obtain ⟨b, calls, middle, rest, rfl, rfl, derives, stages⟩ := sound_plain arg ran
      exact ⟨rest, rfl, .topKeyword derives stages⟩
    · obtain ⟨b, calls, middle, rest, rfl, rfl, derives, stages⟩ := sound_plain arg ran
      exact ⟨rest, rfl, .top derives stages⟩

/-- What stands in parentheses, up to the closing one. -/
theorem sound_closed {parse : Parser Pipeline} {phrase : Pipeline → Phrase} (sound : Sound room parse phrase)
    {tokens : List Token} {stop : Nat} {p : Pipeline} {after : Cursor}
    (ran : (parse >>= fun inner => expect .closeParen >>= fun _ => pure inner) ⟨tokens, stop⟩ = .ok (p, after)) :
    ∃ closing rest, after = ⟨rest, stop⟩ ∧ closing.kind = .closeParen ∧
      Derives room (phrase p) tokens (closing :: rest) := by
  obtain ⟨inner, _, readInner, ran⟩ := bind_eq_ok.mp ran
  obtain ⟨middle, rfl, derives⟩ := sound _ _ _ _ readInner
  rw [expect_bind, Cursor.kind_mk] at ran
  split at ran
  · rename_i closes
    obtain ⟨_, _, rest, rfl⟩ := eq_cons_of_next closes (by simp)
    cases ran
    exact ⟨_, rest, rfl, rfl, derives⟩
  · cases ran

theorem sound_nested {readValue : Nat → Parser Value} (values : ∀ room, Sound room (readValue room) .value)
    (room : Nat) : SoundNested room (nested bound readValue room) := by
  induction room with
  | zero =>
    intro tokens _ stop p after ran
    cases ran
  | succ room ih =>
    intro tokens isKeyword stop p after ran
    obtain ⟨_, _, tail, rfl⟩ := eq_cons_of_next isKeyword (by simp)
    simp only [nested, advance_bind, accept_bind, Cursor.advance_mk, Cursor.kind_mk, List.tail_cons] at ran
    split at ran
    · rename_i opens
      obtain ⟨_, _, tail, rfl⟩ := eq_cons_of_next opens (by simp)
      simp only [↓reduceIte, peekFollowing_bind, Cursor.following_mk, List.tail_cons] at ran
      split at ran
      · rename_i isEquals
        obtain ⟨closing, rest, rfl, closes, derives⟩ := sound_closed (sound_textureName (values room)) ran
        exact ⟨rest, rfl, .nestedName rfl isEquals derives closes⟩
      · obtain ⟨closing, rest, rfl, closes, derives⟩ := sound_closed (sound_whole ih (sound_arg (values room))) ran
        exact ⟨rest, rfl, .nestedTop rfl derives closes⟩
    · simp only [Bool.false_eq_true, ↓reduceIte] at ran
      obtain ⟨b, _, readBase, made⟩ := bind_eq_ok.mp ran
      obtain ⟨rest, rfl, derives⟩ := sound_base (sound_call (sound_arg (values room))) _ _ _ _ readBase
      cases made
      exact ⟨rest, rfl, .nestedBase derives⟩

theorem value_apply (bound turns room : Nat) (tokens : List Token) (stop : Nat) :
    value bound (turns + 1) room ⟨tokens, stop⟩ =
      if next tokens = .ident "tex" ∧ opensNested (next tokens.tail) then
        (extended bound (nested bound (value bound turns) room) (arg (value bound turns room)) >>= fun p =>
          (pure (.nested p) : Parser Value)) ⟨tokens, stop⟩
      else
        match next tokens with
        | .number n => .ok (.int n, ⟨tokens.tail, stop⟩)
        | .str content => .ok (.str content, ⟨tokens.tail, stop⟩)
        | .ident name => .ok (.ident name, ⟨tokens.tail, stop⟩)
        | other => .error ⟨(⟨tokens, stop⟩ : Cursor).offset, .missingValue other⟩ := by
  have unfolded : value bound (turns + 1) room = peek >>= fun found => peekFollowing >>= fun following =>
      if found = .ident "tex" && opensNested following then
        nested bound (value bound turns) room >>= fun inner => stages bound (arg (value bound turns room)) >>= fun more =>
          (pure (.nested { inner with stages := inner.stages ++ more }) : Parser Value)
      else
        match found with
        | .number n => advance >>= fun _ => pure (.int n)
        | .str content => advance >>= fun _ => pure (.str content)
        | .ident name => advance >>= fun _ => pure (.ident name)
        | other => fail (.missingValue other) := rfl
  simp only [unfolded, extended, bind_assoc, pure_bind, peek_bind, peekFollowing_bind, Cursor.kind_mk,
    Cursor.following_mk, Bool.and_eq_true, decide_eq_true_eq]
  split
  · rfl
  · cases next tokens <;> rfl

theorem sound_value (turns room : Nat) : Sound room (value bound turns room) .value := by
  induction turns generalizing room with
  | zero =>
    intro tokens stop v after ran
    cases ran
  | succ turns ih =>
    intro tokens stop v after ran
    rw [value_apply] at ran
    split at ran
    · rename_i opens
      obtain ⟨p, _, readInner, made⟩ := bind_eq_ok.mp ran
      obtain ⟨inner, calls, middle, rest, rfl, rfl, derives, stages⟩ :=
        sound_extended (sound_nested ih room) (sound_arg (ih room)) opens.1 readInner
      cases made
      obtain ⟨_, _, tail, rfl⟩ := eq_cons_of_next opens.1 (by simp)
      exact ⟨rest, rfl, .nestedValue opens.2 derives stages⟩
    · generalize isFound : next tokens = found at ran
      split at ran
      · obtain ⟨_, _, tail, rfl⟩ := eq_cons_of_next isFound (by simp)
        cases ran
        exact ⟨tail, rfl, .int⟩
      · obtain ⟨_, _, tail, rfl⟩ := eq_cons_of_next isFound (by simp)
        cases ran
        exact ⟨tail, rfl, .str⟩
      · obtain ⟨_, _, tail, rfl⟩ := eq_cons_of_next isFound (by simp)
        cases ran
        exact ⟨tail, rfl, .ident⟩
      · cases ran

theorem sound_program {tokens : List Token} {stop : Nat} {p : Pipeline} {after : Cursor}
    (ended : ∀ token ∈ tokens, token.kind ≠ .finish) (ran : program bound ⟨tokens, stop⟩ = .ok (p, after)) :
    Derives nestingLimit (.top p) tokens [] := by
  obtain ⟨q, _, readWhole, ran⟩ := bind_eq_ok.mp ran
  have values : ∀ room, Sound room (value bound bound room) .value := sound_value bound
  obtain ⟨rest, rfl, derives⟩ :=
    sound_whole (sound_nested values nestingLimit) (sound_arg (values nestingLimit)) _ _ _ _ readWhole
  rw [expect_bind, Cursor.kind_mk] at ran
  split at ran
  · rename_i finished
    cases ran
    cases rest with
    | nil => exact derives
    | cons token rest => exact absurd finished (ended token (derives.suffix.subset List.mem_cons_self))
  · cases ran

end Parser

end TextureLoom.Pipeline
