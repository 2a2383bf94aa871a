import TextureLoom.Proofs.Pipeline.Grammar

set_option autoImplicit false

namespace TextureLoom

mutual

/-- A pipeline with all offsets taken out. -/
def Pipeline.unplaced : Pipeline → Pipeline
  | ⟨base, stages⟩ => ⟨base.unplaced, Pipeline.unplacedStages stages⟩

def Base.unplaced : Base → Base
  | .texture name _ => .texture name 0
  | .fill width height color _ => .fill width height color 0
  | .sheet call => .sheet call.unplaced
  | .canvas call => .canvas call.unplaced

def Call.unplaced : Call → Call
  | ⟨name, args, _⟩ => ⟨name, Pipeline.unplacedArgs args, 0⟩

def Pipeline.unplacedStages : List Call → List Call
  | [] => []
  | call :: rest => call.unplaced :: Pipeline.unplacedStages rest

def Arg.unplaced : Arg → Arg
  | ⟨name, value, _⟩ => ⟨name, value.unplaced, 0⟩

def Pipeline.unplacedArgs : List Arg → List Arg
  | [] => []
  | a :: rest => a.unplaced :: Pipeline.unplacedArgs rest

def Value.unplaced : Value → Value
  | .int n => .int n
  | .str content => .str content
  | .ident name => .ident name
  | .nested p => .nested p.unplaced

end

namespace Pipeline

open Source

theorem unplacedStages_append (first second : List Call) :
    unplacedStages (first ++ second) = unplacedStages first ++ unplacedStages second := by
  induction first with
  | nil => rfl
  | cons call rest ih => rw [List.cons_append, unplacedStages, unplacedStages, ih, List.cons_append]

theorem unplaced_congr {b other : Base} {calls more : List Call} (same : other.unplaced = b.unplaced)
    (sameToo : unplacedStages more = unplacedStages calls) :
    (⟨other, more⟩ : Pipeline).unplaced = (⟨b, calls⟩ : Pipeline).unplaced := by
  rw [Pipeline.unplaced, Pipeline.unplaced, same, sameToo]

theorem unplaced_extended {p q : Pipeline} {calls more : List Call} (same : q.unplaced = p.unplaced)
    (sameToo : unplacedStages more = unplacedStages calls) :
    Pipeline.unplaced { q with stages := q.stages ++ more } =
      Pipeline.unplaced { p with stages := p.stages ++ calls } := by
  cases p
  cases q
  simp only [Pipeline.unplaced, Pipeline.mk.injEq] at same
  apply unplaced_congr same.1
  rw [unplacedStages_append, unplacedStages_append, same.2, sameToo]

def isNumber : Kind → Bool
  | .number _ => true
  | _ => false

/-- Punctuation, the cross apart. -/
def isMark : Kind → Bool
  | .pipe | .comma | .openParen | .closeParen | .equals => true
  | _ => false

theorem not_isCross_of_isMark {kind : Kind} (mark : isMark kind) : ¬isCross kind := by
  rintro (rfl | rfl | rfl) <;> cases mark

theorem isNumber_of_isMark {kind : Kind} (mark : isMark kind) : isNumber kind = false := by
  cases kind <;> first | rfl | cases mark

theorem isNumber_of_textOf? {kind : Kind} {text : String} (isText : textOf? kind = some text) :
    isNumber kind = false := by
  cases kind <;> first | rfl | cases isText

theorem not_number_of_mark {token : Token} {tail : List Token} {kind : Kind} (isKind : token.kind = kind)
    (mark : isMark kind) : ¬isNumber (next (token :: tail)) := by
  rw [next, isKind, isNumber_of_isMark mark]
  decide

theorem Derives.not_number_of_stages {room : Nat} {calls : List Call} {tokens rest : List Token}
    (stages : Derives room (.stages calls) tokens rest) (noNumber : ¬isNumber (next rest)) :
    ¬isNumber (next tokens) := by
  rcases stages.next_of_stages with arrow | rfl
  · rw [arrow]
    decide
  · exact noNumber

/-- Two token sequences are the same but for the crosses between the numbers of sizes, which each may have as tokens
of their own or as names; `sized` is whether a number stands in front. -/
inductive Respelled : Bool → List Token → List Token → Prop where
  | nil {sized : Bool} : Respelled sized [] []
  | same {sized : Bool} {token other : Token} {tail others : List Token} :
    other.kind = token.kind → Respelled (isNumber token.kind) tail others →
    Respelled sized (token :: tail) (other :: others)
  | cross {token other : Token} {tail others : List Token} :
    isCross token.kind → isCross other.kind → isNumber (next tail) → Respelled false tail others →
    Respelled true (token :: tail) (other :: others)

namespace Respelled

variable {sized : Bool} {tokens others : List Token}

theorem next_eq (respelled : Respelled false tokens others) : next others = next tokens := by
  cases respelled with
  | nil => rfl
  | same kind _ => exact kind

theorem symm (respelled : Respelled sized tokens others) : Respelled sized others tokens := by
  induction respelled with
  | nil => exact .nil
  | same kind _ ih => exact .same kind.symm (kind ▸ ih)
  | cross first second number rest ih => exact .cross second first (rest.next_eq ▸ number) ih

theorem weaken (respelled : Respelled false tokens others) (sized : Bool) : Respelled sized tokens others := by
  cases respelled with
  | nil => exact .nil
  | same kind rest => exact .same kind rest

/-- A token that cannot be the cross of a size is the same in both. -/
theorem exists_same {token : Token} {tail : List Token} (respelled : Respelled sized (token :: tail) others)
    (plain : isCross token.kind → isNumber (next tail) → sized = false) :
    ∃ other rest, others = other :: rest ∧ other.kind = token.kind ∧ Respelled (isNumber token.kind) tail rest := by
  cases respelled with
  | same kind rest => exact ⟨_, _, rfl, kind, rest⟩
  | cross first _ number _ => exact absurd (plain first number) (by decide)

theorem exists_mark {token : Token} {tail : List Token} {kind : Kind}
    (respelled : Respelled sized (token :: tail) others)
    (isKind : token.kind = kind) (mark : isMark kind) :
    ∃ other rest, others = other :: rest ∧ other.kind = kind ∧ Respelled false tail rest := by
  subst isKind
  obtain ⟨other, rest, rfl, same, left⟩ := respelled.exists_same fun cross => absurd cross (not_isCross_of_isMark mark)
  rw [isNumber_of_isMark mark] at left
  exact ⟨other, rest, rfl, same, left⟩

theorem exists_cross {token : Token} {tail : List Token} (respelled : Respelled sized (token :: tail) others)
    (cross : isCross token.kind) :
    ∃ other rest, others = other :: rest ∧ isCross other.kind ∧ Respelled false tail rest := by
  cases respelled with
  | same kind rest =>
    have noNumber : isNumber token.kind = false := by rcases cross with same | same | same <;> rw [same] <;> rfl
    exact ⟨_, _, rfl, kind ▸ cross, noNumber ▸ rest⟩
  | cross _ second _ rest => exact ⟨_, _, rfl, second, rest⟩

theorem next_eq_of (respelled : Respelled sized tokens others) (plain : ¬isCross (next tokens)) :
    next others = next tokens := by
  cases respelled with
  | nil => rfl
  | same kind _ => exact kind
  | cross first => exact absurd first plain

theorem next_tail_eq (respelled : Respelled sized tokens others) (plain : ¬isCross (next tokens.tail)) :
    next others.tail = next tokens.tail := by
  cases respelled with
  | nil => rfl
  | same _ rest => exact rest.next_eq_of plain
  | cross _ _ _ rest => exact rest.next_eq

end Respelled

/-- A cross can follow the number that such a phrase may end with. -/
def Phrase.mayEndInNumber : Phrase → Bool
  | .value _ | .arg _ | .args _ => true
  | _ => false

/-- The tokens up to `rest` are the phrase but for offsets. -/
def DerivesUnplaced (room : Nat) (tokens rest : List Token) : Phrase → Prop
  | .top p => ∃ q, q.unplaced = p.unplaced ∧ Derives room (.top q) tokens rest
  | .stages calls => ∃ more, unplacedStages more = unplacedStages calls ∧ Derives room (.stages more) tokens rest
  | .base b => ∃ other, other.unplaced = b.unplaced ∧ Derives room (.base other) tokens rest
  | .call c => ∃ other, other.unplaced = c.unplaced ∧ Derives room (.call other) tokens rest
  | .args as => ∃ more, unplacedArgs more = unplacedArgs as ∧ Derives room (.args more) tokens rest
  | .arg a => ∃ other, other.unplaced = a.unplaced ∧ Derives room (.arg other) tokens rest
  | .value v => ∃ other, other.unplaced = v.unplaced ∧ Derives room (.value other) tokens rest
  | .nested p => ∃ q, q.unplaced = p.unplaced ∧ Derives room (.nested q) tokens rest
  | .nameArgs p => ∃ q, q.unplaced = p.unplaced ∧ Derives room (.nameArgs q) tokens rest

/-- What is derived from tokens is derived from them respelled, unless a number comes next, behind which a cross could
be the colour of a fill. -/
theorem Derives.respelled {room : Nat} {phrase : Phrase} {tokens rest : List Token}
    (derives : Derives room phrase tokens rest) :
    ∀ {others}, Respelled false tokens others → ¬isNumber (next rest) →
      ∃ remaining, DerivesUnplaced room others remaining phrase ∧ Respelled phrase.mayEndInNumber rest remaining := by
  induction derives with
  | topName ends stages ih =>
    intro others respelled noNumber
    obtain ⟨⟨_, start, stop⟩, tail, rfl, rfl, behind⟩ := respelled.exists_same fun _ _ => rfl
    obtain ⟨remaining, ⟨more, same, derives⟩, left⟩ := ih behind noNumber
    refine ⟨remaining, ⟨_, ?_, .topName (behind.next_eq ▸ ends) derives⟩, left⟩
    rw [Pipeline.unplaced, same]
    rfl
  | topNested opens nested stages ihNested ihStages =>
    intro others respelled noNumber
    obtain ⟨middle, ⟨q, same, derives⟩, left⟩ := ihNested respelled (stages.not_number_of_stages noNumber)
    obtain ⟨remaining, ⟨more, sameToo, derivesToo⟩, left⟩ := ihStages left noNumber
    obtain ⟨⟨_, start, stop⟩, tail, rfl, rfl, behind⟩ := respelled.exists_same fun _ _ => rfl
    exact ⟨remaining, ⟨_, unplaced_extended same sameToo, .topNested (behind.next_eq.trans opens) derives derivesToo⟩,
      left⟩
  | topKeyword base stages ihBase ihStages =>
    intro others respelled noNumber
    obtain ⟨⟨_, start, stop⟩, tail, rfl, rfl, behind⟩ := respelled.exists_same fun _ _ => rfl
    obtain ⟨middle, ⟨b, same, derives⟩, left⟩ := ihBase behind (stages.not_number_of_stages noNumber)
    obtain ⟨remaining, ⟨more, sameToo, derivesToo⟩, left⟩ := ihStages left noNumber
    exact ⟨remaining, ⟨_, unplaced_congr same sameToo, .topKeyword derives derivesToo⟩, left⟩
  | top base stages ihBase ihStages =>
    intro others respelled noNumber
    obtain ⟨middle, ⟨b, same, derives⟩, left⟩ := ihBase respelled (stages.not_number_of_stages noNumber)
    obtain ⟨remaining, ⟨more, sameToo, derivesToo⟩, left⟩ := ihStages left noNumber
    exact ⟨remaining, ⟨_, unplaced_congr same sameToo, .top derives derivesToo⟩, left⟩
  | fill crosses isHigh isPainted =>
    intro others respelled noNumber
    obtain ⟨⟨_, start, stop⟩, tail, rfl, rfl, behind⟩ := respelled.exists_same fun _ _ => rfl
    obtain ⟨cross, tail, rfl, crossesToo, beyond⟩ := behind.exists_cross crosses
    obtain ⟨high, tail, rfl, isHighToo, later⟩ := beyond.exists_same fun _ _ => rfl
    -- The colour may be a name that a cross can have, but then no number stands behind it.
    obtain ⟨painted, tail, rfl, isPaintedToo, last⟩ :=
      later.exists_same fun _ number => absurd number noNumber
    rw [isNumber_of_textOf? isPainted] at last
    exact ⟨tail, ⟨.fill _ _ _ start, rfl, .fill crossesToo (isHighToo.trans isHigh) (isPaintedToo ▸ isPainted)⟩, last⟩
  | sheet opens call ih =>
    intro others respelled noNumber
    obtain ⟨remaining, ⟨c, same, derives⟩, left⟩ := ih respelled noNumber
    obtain ⟨⟨_, start, stop⟩, tail, rfl, rfl, behind⟩ := respelled.exists_same fun _ _ => rfl
    exact ⟨remaining, ⟨.sheet c, congrArg Base.sheet same, .sheet (behind.next_eq.trans opens) derives⟩, left⟩
  | canvas opens call ih =>
    intro others respelled noNumber
    obtain ⟨remaining, ⟨c, same, derives⟩, left⟩ := ih respelled noNumber
    obtain ⟨⟨_, start, stop⟩, tail, rfl, rfl, behind⟩ := respelled.exists_same fun _ _ => rfl
    exact ⟨remaining, ⟨.canvas c, congrArg Base.canvas same, .canvas (behind.next_eq.trans opens) derives⟩, left⟩
  | name plain =>
    intro others respelled noNumber
    obtain ⟨⟨_, start, stop⟩, tail, rfl, rfl, behind⟩ := respelled.exists_same fun _ _ => rfl
    exact ⟨tail, ⟨.texture _ start, rfl, .name (behind.next_eq ▸ plain)⟩, behind⟩
  | literal =>
    intro others respelled noNumber
    obtain ⟨⟨_, start, stop⟩, tail, rfl, rfl, behind⟩ := respelled.exists_same fun _ _ => rfl
    exact ⟨tail, ⟨.texture _ start, rfl, .literal⟩, behind⟩
  | noStage =>
    intro others respelled noNumber
    exact ⟨others, ⟨[], rfl, .noStage⟩, respelled⟩
  | stage call stages ihCall ihStages =>
    intro others respelled noNumber
    obtain ⟨⟨_, start, stop⟩, tail, rfl, rfl, behind⟩ := respelled.exists_same fun _ _ => rfl
    obtain ⟨middle, ⟨c, same, derives⟩, left⟩ := ihCall behind (stages.not_number_of_stages noNumber)
    obtain ⟨remaining, ⟨more, sameToo, derivesToo⟩, left⟩ := ihStages left noNumber
    refine ⟨remaining, ⟨c :: more, ?_, .stage derives derivesToo⟩, left⟩
    rw [unplacedStages, unplacedStages, same, sameToo]
  | bare =>
    intro others respelled noNumber
    obtain ⟨⟨_, start, stop⟩, tail, rfl, rfl, behind⟩ := respelled.exists_same fun _ _ => rfl
    exact ⟨tail, ⟨⟨_, [], start⟩, rfl, .bare⟩, behind⟩
  | empty opens closes =>
    intro others respelled noNumber
    obtain ⟨⟨_, start, stop⟩, tail, rfl, rfl, behind⟩ := respelled.exists_same fun _ _ => rfl
    obtain ⟨opening, tail, rfl, opensToo, beyond⟩ := behind.exists_mark opens rfl
    obtain ⟨closing, tail, rfl, closesToo, later⟩ := beyond.exists_mark closes rfl
    exact ⟨tail, ⟨⟨_, [], start⟩, rfl, .empty opensToo closesToo⟩, later⟩
  | call opens args closes ih =>
    intro others respelled noNumber
    obtain ⟨⟨_, start, stop⟩, tail, rfl, rfl, behind⟩ := respelled.exists_same fun _ _ => rfl
    obtain ⟨opening, tail, rfl, opensToo, beyond⟩ := behind.exists_mark opens rfl
    obtain ⟨remaining, ⟨more, same, derives⟩, left⟩ := ih beyond (not_number_of_mark closes rfl)
    obtain ⟨closing, tail, rfl, closesToo, left⟩ := left.exists_mark closes rfl
    refine ⟨tail, ⟨_, ?_, .call opensToo derives closesToo⟩, left⟩
    rw [Call.unplaced, Call.unplaced, same]
  | lastArg arg ih =>
    intro others respelled noNumber
    obtain ⟨remaining, ⟨a, same, derives⟩, left⟩ := ih respelled noNumber
    exact ⟨remaining, ⟨[a], congrArg (· :: []) same, .lastArg derives⟩, left⟩
  | moreArgs arg isComma args ihArg ihArgs =>
    intro others respelled noNumber
    obtain ⟨middle, ⟨a, same, derives⟩, left⟩ := ihArg respelled (not_number_of_mark isComma rfl)
    obtain ⟨comma, tail, rfl, isCommaToo, left⟩ := left.exists_mark isComma rfl
    obtain ⟨remaining, ⟨more, sameToo, derivesToo⟩, left⟩ := ihArgs left noNumber
    refine ⟨remaining, ⟨a :: more, ?_, .moreArgs derives isCommaToo derivesToo⟩, left⟩
    rw [unplacedArgs, unplacedArgs, same, sameToo]
  | named isEquals value ih =>
    intro others respelled noNumber
    obtain ⟨⟨_, start, stop⟩, tail, rfl, rfl, behind⟩ := respelled.exists_same fun _ _ => rfl
    obtain ⟨equals, tail, rfl, isEqualsToo, beyond⟩ := behind.exists_mark isEquals rfl
    obtain ⟨remaining, ⟨v, same, derives⟩, left⟩ := ih beyond noNumber
    refine ⟨remaining, ⟨_, ?_, .named isEqualsToo derives⟩, left⟩
    rw [Arg.unplaced, Arg.unplaced, same]
  | unnamed value ih =>
    intro others respelled noNumber
    obtain ⟨remaining, ⟨v, same, derives⟩, left⟩ := ih respelled noNumber
    obtain ⟨first, tail, rfl, _, _⟩ := respelled.exists_same fun _ _ => rfl
    refine ⟨remaining, ⟨_, ?_, .unnamed derives⟩, left⟩
    rw [Arg.unplaced, Arg.unplaced, same]
  | nestedValue opens nested stages ihNested ihStages =>
    intro others respelled noNumber
    obtain ⟨middle, ⟨q, same, derives⟩, left⟩ := ihNested respelled (stages.not_number_of_stages noNumber)
    obtain ⟨remaining, ⟨more, sameToo, derivesToo⟩, left⟩ := ihStages left noNumber
    obtain ⟨⟨_, start, stop⟩, tail, rfl, rfl, behind⟩ := respelled.exists_same fun _ _ => rfl
    have extended := unplaced_extended same sameToo
    exact ⟨remaining, ⟨.nested { q with stages := q.stages ++ more }, congrArg Value.nested extended,
      .nestedValue (behind.next_eq ▸ opens) derives derivesToo⟩, left.weaken true⟩
  | int =>
    intro others respelled noNumber
    obtain ⟨⟨_, start, stop⟩, tail, rfl, rfl, behind⟩ := respelled.exists_same fun _ _ => rfl
    exact ⟨tail, ⟨_, rfl, .int⟩, behind⟩
  | str =>
    intro others respelled noNumber
    obtain ⟨⟨_, start, stop⟩, tail, rfl, rfl, behind⟩ := respelled.exists_same fun _ _ => rfl
    exact ⟨tail, ⟨_, rfl, .str⟩, behind.weaken true⟩
  | ident =>
    intro others respelled noNumber
    obtain ⟨⟨_, start, stop⟩, tail, rfl, rfl, behind⟩ := respelled.exists_same fun _ _ => rfl
    exact ⟨tail, ⟨_, rfl, .ident⟩, behind.weaken true⟩
  | nestedName opens isEquals nameArgs closes ih =>
    intro others respelled noNumber
    obtain ⟨⟨_, start, stop⟩, tail, rfl, rfl, behind⟩ := respelled.exists_same fun _ _ => rfl
    obtain ⟨opening, tail, rfl, opensToo, beyond⟩ := behind.exists_mark opens rfl
    obtain ⟨remaining, ⟨q, same, derives⟩, left⟩ := ih beyond (not_number_of_mark closes rfl)
    obtain ⟨closing, rest, rfl, closesToo, left⟩ := left.exists_mark closes rfl
    have isEqualsToo := beyond.next_tail_eq (isEquals ▸ not_isCross_of_isMark rfl)
    exact ⟨rest, ⟨q, same, .nestedName opensToo (isEqualsToo.trans isEquals) derives closesToo⟩, left⟩
  | nestedTop opens top closes ih =>
    intro others respelled noNumber
    obtain ⟨⟨_, start, stop⟩, tail, rfl, rfl, behind⟩ := respelled.exists_same fun _ _ => rfl
    obtain ⟨opening, tail, rfl, opensToo, beyond⟩ := behind.exists_mark opens rfl
    obtain ⟨remaining, ⟨q, same, derives⟩, left⟩ := ih beyond (not_number_of_mark closes rfl)
    obtain ⟨closing, rest, rfl, closesToo, left⟩ := left.exists_mark closes rfl
    exact ⟨rest, ⟨q, same, .nestedTop opensToo derives closesToo⟩, left⟩
  | nestedBase base ih =>
    intro others respelled noNumber
    obtain ⟨⟨_, start, stop⟩, tail, rfl, rfl, behind⟩ := respelled.exists_same fun _ _ => rfl
    obtain ⟨remaining, ⟨b, same, derives⟩, left⟩ := ih behind noNumber
    exact ⟨remaining, ⟨_, unplaced_congr same rfl, .nestedBase derives⟩, left⟩
  | lastName isKey isEquals isText =>
    intro others respelled noNumber
    obtain ⟨⟨_, start, stop⟩, tail, rfl, rfl, behind⟩ := respelled.exists_same fun _ _ => rfl
    obtain ⟨equals, tail, rfl, isEqualsToo, beyond⟩ := behind.exists_mark isEquals rfl
    obtain ⟨written, tail, rfl, same, later⟩ := beyond.exists_same fun _ _ => rfl
    rw [isNumber_of_textOf? isText] at later
    exact ⟨tail, ⟨⟨.texture _ start, []⟩, rfl, .lastName isKey isEqualsToo (same ▸ isText)⟩, later⟩
  | moreNames isKey isEquals isText isComma more ih =>
    intro others respelled noNumber
    obtain ⟨⟨_, start, stop⟩, tail, rfl, rfl, behind⟩ := respelled.exists_same fun _ _ => rfl
    obtain ⟨equals, tail, rfl, isEqualsToo, beyond⟩ := behind.exists_mark isEquals rfl
    obtain ⟨written, tail, rfl, same, later⟩ := beyond.exists_same fun _ _ => rfl
    obtain ⟨comma, tail, rfl, isCommaToo, last⟩ := later.exists_mark isComma rfl
    obtain ⟨remaining, ⟨q, sameToo, derives⟩, left⟩ := ih last noNumber
    exact ⟨remaining, ⟨q, sameToo, .moreNames isKey isEqualsToo (same ▸ isText) isCommaToo derives⟩, left⟩

end Pipeline

end TextureLoom
