import TextureLoom.Pipeline.Parser

set_option autoImplicit false

namespace TextureLoom.Pipeline

open Source

/-- The kind of the next token, at the end of the text the end. -/
def next : List Token → Kind
  | [] => .finish
  | token :: _ => token.kind

theorem eq_cons_of_next {tokens : List Token} {kind : Kind} (isNext : next tokens = kind) (more : kind ≠ .finish) :
    ∃ start stop tail, tokens = ⟨kind, start, stop⟩ :: tail := by
  cases tokens with
  | nil => exact absurd isNext.symm more
  | cons token tail =>
    subst isNext
    exact ⟨token.start, token.stop, tail, rfl⟩

/-- A cross between the numbers of a size is a token of its own or a name, in either case. -/
def isCross (kind : Kind) : Prop := kind = .cross ∨ kind = .ident "x" ∨ kind = .ident "X"

/-- The text of a name or of a literal. -/
def textOf? : Kind → Option String
  | .ident text | .str text => some text
  | _ => none

/-- Such a token behind the keyword makes it the name of a texture, at the start of a pipeline. -/
def endsName : Kind → Bool
  | .pipe | .finish | .closeParen | .comma => true
  | _ => false

/-- Such a token behind the keyword opens a nested form, in a value. -/
def opensNested : Kind → Bool
  | .openParen | .ident _ | .str _ | .number _ => true
  | _ => false

/-- What tokens can be read as, with what is made of it. -/
inductive Phrase where
  | top (p : Pipeline)
  | stages (calls : List Call)
  | base (b : Base)
  | call (c : Call)
  | args (as : List Arg)
  | arg (a : Arg)
  | value (v : Value)
  | nested (p : Pipeline)
  | nameArgs (p : Pipeline)

/-- The grammar: the tokens up to `rest` are a phrase, where `room` more nested forms may be open at once. -/
inductive Derives : Nat → Phrase → List Token → List Token → Prop where
  -- top := tex stages | nested stages | [tex] base stages
  | topName {room start stop : Nat} {calls : List Call} {tail rest : List Token} :
    endsName (next tail) → Derives room (.stages calls) tail rest →
    Derives room (.top ⟨.texture "tex" start, calls⟩) (⟨.ident "tex", start, stop⟩ :: tail) rest
  | topNested {room start stop : Nat} {p : Pipeline} {calls : List Call} {tail middle rest : List Token} :
    next tail = .openParen → Derives room (.nested p) (⟨.ident "tex", start, stop⟩ :: tail) middle →
    Derives room (.stages calls) middle rest →
    Derives room (.top { p with stages := p.stages ++ calls }) (⟨.ident "tex", start, stop⟩ :: tail) rest
  | topKeyword {room start stop : Nat} {b : Base} {calls : List Call} {tail middle rest : List Token} :
    Derives room (.base b) tail middle → Derives room (.stages calls) middle rest →
    Derives room (.top ⟨b, calls⟩) (⟨.ident "tex", start, stop⟩ :: tail) rest
  | top {room : Nat} {b : Base} {calls : List Call} {tokens middle rest : List Token} :
    Derives room (.base b) tokens middle → Derives room (.stages calls) middle rest →
    Derives room (.top ⟨b, calls⟩) tokens rest
  -- base := Number (X | x) Number (Ident | Str) | (anim | combine) '(' [args] ')' | Ident | Str
  | fill {room start stop : Nat} {width height : Int} {color : String} {cross high painted : Token}
      {rest : List Token} :
    isCross cross.kind → high.kind = .number height → textOf? painted.kind = some color →
    Derives room (.base (.fill width height color start))
      (⟨.number width, start, stop⟩ :: cross :: high :: painted :: rest) rest
  | sheet {room start stop : Nat} {c : Call} {tail rest : List Token} :
    next tail = .openParen → Derives room (.call c) (⟨.ident "anim", start, stop⟩ :: tail) rest →
    Derives room (.base (.sheet c)) (⟨.ident "anim", start, stop⟩ :: tail) rest
  | canvas {room start stop : Nat} {c : Call} {tail rest : List Token} :
    next tail = .openParen → Derives room (.call c) (⟨.ident "combine", start, stop⟩ :: tail) rest →
    Derives room (.base (.canvas c)) (⟨.ident "combine", start, stop⟩ :: tail) rest
  | name {room start stop : Nat} {name : String} {rest : List Token} :
    ¬((name = "anim" ∨ name = "combine") ∧ next rest = .openParen) →
    Derives room (.base (.texture name start)) (⟨.ident name, start, stop⟩ :: rest) rest
  | literal {room start stop : Nat} {name : String} {rest : List Token} :
    Derives room (.base (.texture name start)) (⟨.str name, start, stop⟩ :: rest) rest
  -- stages := ('|>' call)*
  | noStage {room : Nat} {rest : List Token} : Derives room (.stages []) rest rest
  | stage {room start stop : Nat} {c : Call} {calls : List Call} {tail middle rest : List Token} :
    Derives room (.call c) tail middle → Derives room (.stages calls) middle rest →
    Derives room (.stages (c :: calls)) (⟨.pipe, start, stop⟩ :: tail) rest
  -- call := Ident ['(' [args] ')']
  | bare {room start stop : Nat} {name : String} {rest : List Token} :
    Derives room (.call ⟨name, [], start⟩) (⟨.ident name, start, stop⟩ :: rest) rest
  | empty {room start stop : Nat} {name : String} {opening closing : Token} {rest : List Token} :
    opening.kind = .openParen → closing.kind = .closeParen →
    Derives room (.call ⟨name, [], start⟩) (⟨.ident name, start, stop⟩ :: opening :: closing :: rest) rest
  | call {room start stop : Nat} {name : String} {as : List Arg} {opening closing : Token} {tail rest : List Token} :
    opening.kind = .openParen → Derives room (.args as) tail (closing :: rest) → closing.kind = .closeParen →
    Derives room (.call ⟨name, as, start⟩) (⟨.ident name, start, stop⟩ :: opening :: tail) rest
  -- args := arg (',' arg)*
  | lastArg {room : Nat} {a : Arg} {tokens rest : List Token} :
    Derives room (.arg a) tokens rest → Derives room (.args [a]) tokens rest
  | moreArgs {room : Nat} {a : Arg} {as : List Arg} {comma : Token} {tokens tail rest : List Token} :
    Derives room (.arg a) tokens (comma :: tail) → comma.kind = .comma → Derives room (.args as) tail rest →
    Derives room (.args (a :: as)) tokens rest
  -- arg := [Ident '='] value
  | named {room start stop : Nat} {name : String} {v : Value} {equals : Token} {tail rest : List Token} :
    equals.kind = .equals → Derives room (.value v) tail rest →
    Derives room (.arg ⟨some name, v, start⟩) (⟨.ident name, start, stop⟩ :: equals :: tail) rest
  | unnamed {room : Nat} {v : Value} {first : Token} {tail rest : List Token} :
    Derives room (.value v) (first :: tail) rest → Derives room (.arg ⟨none, v, first.start⟩) (first :: tail) rest
  -- value := nested stages | Number | Str | Ident
  | nestedValue {room start stop : Nat} {p : Pipeline} {calls : List Call} {tail middle rest : List Token} :
    opensNested (next tail) → Derives room (.nested p) (⟨.ident "tex", start, stop⟩ :: tail) middle →
    Derives room (.stages calls) middle rest →
    Derives room (.value (.nested { p with stages := p.stages ++ calls })) (⟨.ident "tex", start, stop⟩ :: tail) rest
  | int {room start stop : Nat} {n : Int} {rest : List Token} :
    Derives room (.value (.int n)) (⟨.number n, start, stop⟩ :: rest) rest
  | str {room start stop : Nat} {content : String} {rest : List Token} :
    Derives room (.value (.str content)) (⟨.str content, start, stop⟩ :: rest) rest
  | ident {room start stop : Nat} {name : String} {rest : List Token} :
    Derives room (.value (.ident name)) (⟨.ident name, start, stop⟩ :: rest) rest
  -- nested := tex '(' (nameArgs | top) ')' | tex base, and one form less may be open in it
  | nestedName {room start stop : Nat} {p : Pipeline} {opening closing : Token} {tail rest : List Token} :
    opening.kind = .openParen → next tail.tail = .equals → Derives room (.nameArgs p) tail (closing :: rest) →
    closing.kind = .closeParen →
    Derives (room + 1) (.nested p) (⟨.ident "tex", start, stop⟩ :: opening :: tail) rest
  | nestedTop {room start stop : Nat} {p : Pipeline} {opening closing : Token} {tail rest : List Token} :
    opening.kind = .openParen → Derives room (.top p) tail (closing :: rest) → closing.kind = .closeParen →
    Derives (room + 1) (.nested p) (⟨.ident "tex", start, stop⟩ :: opening :: tail) rest
  | nestedBase {room start stop : Nat} {b : Base} {tail rest : List Token} :
    Derives room (.base b) tail rest →
    Derives (room + 1) (.nested ⟨b, []⟩) (⟨.ident "tex", start, stop⟩ :: tail) rest
  -- nameArgs := (name | tex) '=' (Ident | Str), separated by commas, the last one counting
  | lastName {room start stop : Nat} {key text : String} {equals written : Token} {rest : List Token} :
    key = "name" ∨ key = "tex" → equals.kind = .equals → textOf? written.kind = some text →
    Derives room (.nameArgs ⟨.texture text start, []⟩) (⟨.ident key, start, stop⟩ :: equals :: written :: rest) rest
  | moreNames {room start stop : Nat} {key text : String} {p : Pipeline} {equals written comma : Token}
      {tail rest : List Token} :
    key = "name" ∨ key = "tex" → equals.kind = .equals → textOf? written.kind = some text → comma.kind = .comma →
    Derives room (.nameArgs p) tail rest →
    Derives room (.nameArgs p) (⟨.ident key, start, stop⟩ :: equals :: written :: comma :: tail) rest

namespace Derives

variable {room : Nat} {phrase : Phrase} {tokens rest : List Token}

theorem suffix (derives : Derives room phrase tokens rest) : rest <:+ tokens := by
  induction derives with
  | noStage => exact List.suffix_refl _
  | _ => grind [List.suffix_cons, List.IsSuffix.trans, List.suffix_refl]

theorem length_le (derives : Derives room phrase tokens rest) : rest.length ≤ tokens.length := derives.suffix.length_le

/-- Stages start with an arrow, or there are none. -/
theorem next_of_stages {calls : List Call} (derives : Derives room (.stages calls) tokens rest) :
    next tokens = .pipe ∨ tokens = rest := by
  cases derives with
  | noStage => exact .inr rfl
  | stage => exact .inl rfl

/-- A base starts with the number of a size, a name or a literal. -/
theorem next_of_base {b : Base} (derives : Derives room (.base b) tokens rest) :
    (∃ n, next tokens = .number n) ∨ (∃ name, next tokens = .ident name) ∨ ∃ content, next tokens = .str content := by
  cases derives with
  | fill => exact .inl ⟨_, rfl⟩
  | sheet => exact .inr (.inl ⟨_, rfl⟩)
  | canvas => exact .inr (.inl ⟨_, rfl⟩)
  | name => exact .inr (.inl ⟨_, rfl⟩)
  | literal => exact .inr (.inr ⟨_, rfl⟩)

theorem next_of_value {v : Value} (derives : Derives room (.value v) tokens rest) : next tokens ≠ .closeParen := by
  cases derives <;> simp [next]

theorem next_of_args {as : List Arg} (derives : Derives room (.args as) tokens rest) : next tokens ≠ .closeParen := by
  have arg {a : Arg} {tokens rest : List Token} (derives : Derives room (.arg a) tokens rest) :
      next tokens ≠ .closeParen := by
    cases derives with
    | named => simp [next]
    | unnamed value => exact value.next_of_value
  cases derives with
  | lastArg derives => exact arg derives
  | moreArgs derives => exact arg derives

end Derives

end TextureLoom.Pipeline
