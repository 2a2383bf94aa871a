import TextureLoom.Proofs.Compile.Parameters
import TextureLoom.Proofs.Pipeline.Grammar
import TextureLoom.Proofs.Source.Words

set_option autoImplicit false

namespace TextureLoom

open Compile (Parameter Role)

/-- A texture name as a source text has it: how many nested pipelines it stands in, where it is written, and whether
it is taken, that is in no argument that is ignored. -/
structure Mention where
  name : String
  depth : Nat
  offset : Nat
  taken : Bool
deriving DecidableEq, Repr

namespace Mention

/-- The mention seen from the outside of a nested pipeline. -/
def deeper (m : Mention) : Mention := { m with depth := m.depth + 1 }

/-- The mention in an argument that is ignored. -/
def ignored (m : Mention) : Mention := { m with taken := false }

end Mention

/-- Each member of a list with what stands before and behind it. -/
def splits {α : Type} (before : List α) : List α → List (List α × α × List α)
  | [] => []
  | a :: after => (before, a, after) :: splits (before ++ [a]) after

/-- Whether a value is written as a nested pipeline. -/
def Value.isNested : Value → Bool
  | .nested _ => true
  | _ => false

/-- What becomes of an argument: it is taken for an image, or it is one and ignored, or it names no texture. -/
inductive Use where
  | taken
  | ignored
  | other
deriving DecidableEq, Repr

/-- The mentions in an argument. -/
def Use.keep : Use → List Mention → List Mention
  | .taken, mentions => mentions
  | .ignored, mentions => mentions.map Mention.ignored
  | .other, _ => []

def Use.keepAll (uses : List Use) (mentions : List (List Mention)) : List Mention :=
  (List.zipWith Use.keep uses mentions).flatten

/-- What becomes of the argument between some others. A nested pipeline names textures even where no image is
wanted. -/
def Use.of (parameters : List Parameter) : List Arg × Arg × List Arg → Use
  | (before, a, after) =>
    match parameters.find? fun parameter => parameter.wanted = .image ∧ parameter.IsFor before a with
    | some parameter => if parameter.Overrules before a after then .ignored else .taken
    | none => if a.value.isNested then .ignored else .other

def Compile.Role.uses (role : Role) (call : Call) : List Use :=
  (splits [] call.args).map (Use.of (role.parameters call))

mutual

/-- The texture names that a pipeline is written with, in order. -/
def Pipeline.mentions : Pipeline → List Mention
  | ⟨base, stages⟩ => base.mentions ++ Pipeline.mentionsOfStages stages

def Base.mentions : Base → List Mention
  | .texture name offset => [⟨name, 0, offset, true⟩]
  | .fill .. => []
  | .sheet ⟨name, args, offset⟩ => Use.keepAll (Role.sheet.uses ⟨name, args, offset⟩) (Pipeline.mentionsOfArgs args)
  | .canvas ⟨name, args, offset⟩ => Use.keepAll (Role.canvas.uses ⟨name, args, offset⟩) (Pipeline.mentionsOfArgs args)

def Pipeline.mentionsOfStages : List Call → List Mention
  | [] => []
  | ⟨name, args, offset⟩ :: rest =>
    Use.keepAll (Role.stage.uses ⟨name, args, offset⟩) (Pipeline.mentionsOfArgs args) ++ Pipeline.mentionsOfStages rest

def Pipeline.mentionsOfArgs : List Arg → List (List Mention)
  | [] => []
  | ⟨_, value, offset⟩ :: rest => value.mentions offset :: Pipeline.mentionsOfArgs rest

/-- The texture names in the value of an argument at an offset; a pipeline that only names a texture is not nested. -/
def Value.mentions : Value → Nat → List Mention
  | .int _, _ => []
  | .str name, offset | .ident name, offset => [⟨name, 0, offset, true⟩]
  | .nested p, _ => if (Value.nested p).nested?.isSome then p.mentions.map Mention.deeper else p.mentions

end

/-- The texture names among the arguments of a call. -/
def Compile.Role.mentions (role : Role) (call : Call) : List Mention :=
  Use.keepAll (role.uses call) (call.args.map fun a => a.value.mentions a.offset)

theorem Use.keepAll_singleton (use : Use) (uses : List Use) (mentions : List Mention) :
    Use.keepAll (use :: uses) [mentions] = use.keep mentions := by
  rw [keepAll, List.zipWith_cons_cons, List.zipWith_nil_right, List.flatten_cons, List.flatten_nil, List.append_nil]

theorem Value.mentions_of_text? {v : Value} {name : String} {offset : Nat} (isText : v.text? = some name) :
    v.mentions offset = [⟨name, 0, offset, true⟩] := by
  cases v with
  | int n | nested p => cases isText
  | str content | ident content =>
    cases isText
    rw [mentions]

theorem Pipeline.mentionsOfArgs_eq (args : List Arg) :
    mentionsOfArgs args = args.map fun a => a.value.mentions a.offset := by
  induction args with
  | nil => rw [mentionsOfArgs, List.map_nil]
  | cons a rest ih =>
    obtain ⟨name, value, offset⟩ := a
    rw [mentionsOfArgs, ih, List.map_cons]

theorem Base.mentions_sheet (call : Call) : (Base.sheet call).mentions = Role.sheet.mentions call := by
  obtain ⟨name, args, offset⟩ := call
  rw [mentions, Pipeline.mentionsOfArgs_eq, Role.mentions]

theorem Base.mentions_canvas (call : Call) : (Base.canvas call).mentions = Role.canvas.mentions call := by
  obtain ⟨name, args, offset⟩ := call
  rw [mentions, Pipeline.mentionsOfArgs_eq, Role.mentions]

theorem Pipeline.mentionsOfStages_eq (stages : List Call) :
    mentionsOfStages stages = stages.flatMap Role.stage.mentions := by
  induction stages with
  | nil => rw [mentionsOfStages, List.flatMap_nil]
  | cons call rest ih =>
    obtain ⟨name, args, offset⟩ := call
    rw [mentionsOfStages, mentionsOfArgs_eq, ih, List.flatMap_cons, Role.mentions]

theorem Pipeline.mentions_eq (p : Pipeline) : p.mentions = p.base.mentions ++ p.stages.flatMap Role.stage.mentions := by
  obtain ⟨base, stages⟩ := p
  rw [mentions, mentionsOfStages_eq]

/-! ### Mentions in a text -/

namespace Source

open String (utf8Len)

/-- The tokens of a text stand behind each other. -/
theorem Lexes.ascends {offset : Nat} {cs : List Char} {tokens : List Token} (lexes : Lexes offset cs tokens) :
    tokens.Pairwise (·.start < ·.start) ∧ ∀ token ∈ tokens, offset ≤ token.start := by
  have nonempty : ∀ {kind : Kind} {word : List Char}, IsWord kind word → 0 < utf8Len word := by
    rintro kind word ⟨c, cs, rfl, _⟩
    rw [String.utf8Len_cons]
    have := c.utf8Size_pos
    omega
  induction lexes with
  | finish => exact ⟨.nil, fun token member => nomatch member⟩
  | gap skipped _ ih => exact ⟨ih.1, fun token member => Nat.le_trans (Nat.le_add_right ..) (ih.2 token member)⟩
  | word isWord _ _ ih =>
    have long := nonempty isWord
    refine ⟨List.pairwise_cons.mpr ⟨fun token member => ?_, ih.1⟩, fun token member => ?_⟩
    · have behind := ih.2 token member
      dsimp only
      omega
    · rcases List.mem_cons.mp member with rfl | member
      · exact Nat.le_refl _
      · have behind := ih.2 token member
        omega
  | size isWord _ _ ih =>
    have long := nonempty isWord
    obtain ⟨ascend, behind⟩ := ih
    refine ⟨List.pairwise_cons.mpr ⟨fun token member => ?_, List.pairwise_cons.mpr ⟨fun token member => ?_, ascend⟩⟩,
      fun token member => ?_⟩
    · rcases List.mem_cons.mp member with rfl | member
      · dsimp only
        omega
      · have := behind token member
        dsimp only
        omega
    · have := behind token member
      dsimp only
      omega
    · rcases List.mem_cons.mp member with rfl | member
      · exact Nat.le_refl _
      · rcases List.mem_cons.mp member with rfl | member
        · dsimp only
          omega
        · have := behind token member
          omega

end Source

open Source (Token Kind)
open Pipeline (Derives Phrase textOf?)

/-- A texture name stands at a token: the token is the name, or the key that the name is given to. -/
def Mention.IsAt (m : Mention) (token : Token) (tail : List Token) : Prop :=
  token.start = m.offset ∧ (textOf? token.kind = some m.name ∨ ∃ key equals written others,
    token.kind = .ident key ∧ tail = equals :: written :: others ∧ equals.kind = .equals ∧
      textOf? written.kind = some m.name)

/-- The mentions stand in the tokens in front of `rest`, one behind the other. -/
structure Spans (mentions : List Mention) (tokens rest : List Token) : Prop where
  suffix : rest <:+ tokens
  written : ∀ m ∈ mentions, ∃ token tail, token :: tail <:+ tokens ∧ rest <:+ tail ∧ m.IsAt token tail
  ascends : tokens.Pairwise (·.start < ·.start) → mentions.Pairwise (·.offset < ·.offset)

namespace Spans

variable {mentions more : List Mention} {m : Mention} {tokens middle rest tail : List Token} {token : Token}

theorem nil (suffix : rest <:+ tokens) : Spans [] tokens rest :=
  ⟨suffix, fun _ member => absurd member List.not_mem_nil, fun _ => .nil⟩

theorem single (isAt : m.IsAt token tail) (suffix : rest <:+ tail) : Spans [m] (token :: tail) rest where
  suffix := suffix.trans (List.suffix_cons token tail)
  written other member := by
    cases List.mem_singleton.mp member
    exact ⟨token, tail, List.suffix_refl _, suffix, isAt⟩
  ascends _ := List.pairwise_singleton ..

theorem within {wider shorter : List Token} (spans : Spans mentions tokens rest) (inside : tokens <:+ wider)
    (short : shorter <:+ rest) : Spans mentions wider shorter where
  suffix := short.trans (spans.suffix.trans inside)
  written m member :=
    let ⟨token, tail, starts, behind, isAt⟩ := spans.written m member
    ⟨token, tail, starts.trans inside, short.trans behind, isAt⟩
  ascends ascend := spans.ascends (ascend.sublist inside.sublist)

theorem append (first : Spans mentions tokens middle) (second : Spans more middle rest) :
    Spans (mentions ++ more) tokens rest where
  suffix := second.suffix.trans first.suffix
  written m member := by
    rcases List.mem_append.mp member with inFirst | inSecond
    · obtain ⟨token, tail, starts, behind, isAt⟩ := first.written m inFirst
      exact ⟨token, tail, starts, second.suffix.trans behind, isAt⟩
    · obtain ⟨token, tail, starts, behind, isAt⟩ := second.written m inSecond
      exact ⟨token, tail, starts.trans first.suffix, behind, isAt⟩
  ascends ascend := by
    refine List.pairwise_append.mpr
      ⟨first.ascends ascend, second.ascends (ascend.sublist first.suffix.sublist), fun m inFirst n inSecond => ?_⟩
    obtain ⟨token, tail, starts, behind, isAt⟩ := first.written m inFirst
    obtain ⟨other, otherTail, otherStarts, _, otherIsAt⟩ := second.written n inSecond
    have front := (List.pairwise_cons.mp (ascend.sublist starts.sublist)).1 other
      ((otherStarts.trans behind).subset List.mem_cons_self)
    rwa [isAt.1, otherIsAt.1] at front

/-- How deep a mention is and whether it is taken makes no difference. -/
theorem map {f : Mention → Mention} (spans : Spans mentions tokens rest) (sameName : ∀ m, (f m).name = m.name)
    (sameOffset : ∀ m, (f m).offset = m.offset) : Spans (mentions.map f) tokens rest where
  suffix := spans.suffix
  written image member := by
    obtain ⟨m, isMention, rfl⟩ := List.mem_map.mp member
    obtain ⟨token, tail, starts, behind, isAt⟩ := spans.written m isMention
    refine ⟨token, tail, starts, behind, ?_⟩
    rwa [Mention.IsAt, sameName, sameOffset]
  ascends ascend := List.pairwise_map.mpr ((spans.ascends ascend).imp fun front => by rwa [sameOffset, sameOffset])

theorem keep (spans : Spans mentions tokens rest) (use : Use) : Spans (use.keep mentions) tokens rest := by
  cases use with
  | taken => exact spans
  | ignored => exact spans.map (fun _ => rfl) fun _ => rfl
  | other => exact nil spans.suffix

end Spans

namespace Pipeline

theorem mentions_append (p : Pipeline) (calls : List Call) :
    Pipeline.mentions { p with stages := p.stages ++ calls } = p.mentions ++ calls.flatMap Role.stage.mentions := by
  rw [mentions_eq, mentions_eq, List.flatMap_append, List.append_assoc]

/-- The mentions of a phrase stand in its tokens. A value that is a text is one token, which is not where its argument
begins if that has a name. -/
def Phrase.Spans (tokens rest : List Token) : Phrase → Prop
  | .top p | .nested p | .nameArgs p => TextureLoom.Spans p.mentions tokens rest
  | .stages calls => TextureLoom.Spans (calls.flatMap Role.stage.mentions) tokens rest
  | .base b => TextureLoom.Spans b.mentions tokens rest
  | .call c => ∀ role : Role, TextureLoom.Spans (role.mentions c) tokens rest
  | .args as =>
    ∀ uses, TextureLoom.Spans (Use.keepAll uses (as.map fun a => a.value.mentions a.offset)) tokens rest
  | .arg a => TextureLoom.Spans (a.value.mentions a.offset) tokens rest
  | .value v =>
    match v.text? with
    | some name => ∃ token, tokens = token :: rest ∧ textOf? token.kind = some name
    | none => ∀ offset, TextureLoom.Spans (v.mentions offset) tokens rest

/-- The texture names of a phrase are written in its tokens, in order. -/
theorem Derives.spans {room : Nat} {phrase : Phrase} {tokens rest : List Token}
    (derives : Derives room phrase tokens rest) : phrase.Spans tokens rest := by
  have tailed (token : Token) (tail : List Token) : tail <:+ token :: tail := List.suffix_cons token tail
  induction derives with
  | topName _ _ ih =>
    rw [Phrase.Spans, mentions_eq]
    exact (Spans.single ⟨rfl, .inl rfl⟩ (List.suffix_refl _)).append ih
  | topNested _ _ _ nested stages =>
    rw [Phrase.Spans, mentions_append]
    exact nested.append stages
  | topKeyword _ _ base stages =>
    rw [Phrase.Spans, mentions_eq]
    exact (base.append stages).within (tailed _ _) (List.suffix_refl _)
  | top _ _ base stages =>
    rw [Phrase.Spans, mentions_eq]
    exact base.append stages
  | fill =>
    rw [Phrase.Spans, Base.mentions]
    exact .nil (List.suffix_append [_, _, _, _] _)
  | sheet _ _ call =>
    rw [Phrase.Spans, Base.mentions_sheet]
    exact call .sheet
  | canvas _ _ call =>
    rw [Phrase.Spans, Base.mentions_canvas]
    exact call .canvas
  | name =>
    rw [Phrase.Spans, Base.mentions]
    exact .single ⟨rfl, .inl rfl⟩ (List.suffix_refl _)
  | literal =>
    rw [Phrase.Spans, Base.mentions]
    exact .single ⟨rfl, .inl rfl⟩ (List.suffix_refl _)
  | noStage => exact .nil (List.suffix_refl _)
  | stage _ _ call stages =>
    rw [Phrase.Spans, List.flatMap_cons]
    exact ((call .stage).append stages).within (tailed _ _) (List.suffix_refl _)
  | bare =>
    intro role
    exact .nil (tailed _ _)
  | empty =>
    intro role
    exact .nil (List.suffix_append [_, _, _] _)
  | call _ _ _ args =>
    intro role
    exact (args _).within (List.suffix_append [_, _] _) (tailed _ _)
  | lastArg _ arg =>
    intro uses
    cases uses with
    | nil => exact .nil arg.suffix
    | cons use uses =>
      rw [List.map_singleton, Use.keepAll_singleton]
      exact arg.keep use
  | moreArgs _ _ _ arg args =>
    intro uses
    cases uses with
    | nil => exact .nil ((args []).suffix.trans ((tailed _ _).trans arg.suffix))
    | cons use uses => exact ((arg.keep use).within (List.suffix_refl _) (tailed _ _)).append (args uses)
  | @named room start stop name v equals tail rest isEquals _ value =>
    rw [Phrase.Spans]
    rw [Phrase.Spans] at value
    split at value
    · next text isText =>
      obtain ⟨written, rfl, isWritten⟩ := value
      rw [Value.mentions_of_text? isText]
      exact .single ⟨rfl, .inr ⟨name, equals, written, rest, rfl, rfl, isEquals, isWritten⟩⟩
        (List.suffix_append [_, _] _)
    · exact (value start).within (List.suffix_append [_, _] _) (List.suffix_refl _)
  | @unnamed room v first tail rest _ value =>
    rw [Phrase.Spans]
    rw [Phrase.Spans] at value
    split at value
    · next text isText =>
      obtain ⟨written, same, isWritten⟩ := value
      obtain ⟨rfl, rfl⟩ := List.cons.inj same
      rw [Value.mentions_of_text? isText]
      exact .single ⟨rfl, .inl isWritten⟩ (List.suffix_refl _)
    · exact value first.start
  | nestedValue _ _ _ nested stages =>
    intro offset
    have both := nested.append stages
    rw [← mentions_append] at both
    rw [Value.mentions]
    split
    · exact both.map (fun _ => rfl) fun _ => rfl
    · exact both
  | int => exact fun offset => .nil (tailed _ _)
  | str => exact ⟨_, rfl, rfl⟩
  | ident => exact ⟨_, rfl, rfl⟩
  | nestedName _ _ _ _ names => exact names.within (List.suffix_append [_, _] _) (tailed _ _)
  | nestedTop _ _ _ top => exact top.within (List.suffix_append [_, _] _) (tailed _ _)
  | nestedBase _ base =>
    rw [Phrase.Spans, mentions_eq, List.flatMap_nil, List.append_nil]
    exact base.within (tailed _ _) (List.suffix_refl _)
  | lastName _ isEquals isWritten =>
    rw [Phrase.Spans, mentions_eq]
    exact .single ⟨rfl, .inr ⟨_, _, _, _, rfl, rfl, isEquals, isWritten⟩⟩ (List.suffix_append [_, _] _)
  | moreNames _ _ _ _ _ names => exact names.within (List.suffix_append [_, _, _, _] _) (List.suffix_refl _)

end Pipeline

end TextureLoom
