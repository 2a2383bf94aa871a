import TextureLoom.Proofs.Pipeline.Nesting
import TextureLoom.Proofs.Source.Rejecting

set_option autoImplicit false

namespace TextureLoom

/-! ### Trees with allowed offsets -/

mutual

/-- All offsets in a pipeline are allowed. -/
inductive Pipeline.Placed (allowed : Nat → Prop) : Pipeline → Prop where
  | mk {b : Base} {calls : List Call} :
    Base.Placed allowed b → (∀ c ∈ calls, Call.Placed allowed c) → Pipeline.Placed allowed ⟨b, calls⟩

inductive Base.Placed (allowed : Nat → Prop) : Base → Prop where
  | texture {name : String} {offset : Nat} : allowed offset → Base.Placed allowed (.texture name offset)
  | fill {width height : Int} {color : String} {offset : Nat} :
    allowed offset → Base.Placed allowed (.fill width height color offset)
  | sheet {c : Call} : Call.Placed allowed c → Base.Placed allowed (.sheet c)
  | canvas {c : Call} : Call.Placed allowed c → Base.Placed allowed (.canvas c)

inductive Call.Placed (allowed : Nat → Prop) : Call → Prop where
  | mk {name : String} {args : List Arg} {offset : Nat} :
    allowed offset → (∀ a ∈ args, Arg.Placed allowed a) → Call.Placed allowed ⟨name, args, offset⟩

inductive Arg.Placed (allowed : Nat → Prop) : Arg → Prop where
  | mk {name : Option String} {v : Value} {offset : Nat} :
    allowed offset → Value.Placed allowed v → Arg.Placed allowed ⟨name, v, offset⟩

inductive Value.Placed (allowed : Nat → Prop) : Value → Prop where
  | int {n : Int} : Value.Placed allowed (.int n)
  | str {content : String} : Value.Placed allowed (.str content)
  | ident {name : String} : Value.Placed allowed (.ident name)
  | nested {p : Pipeline} : Pipeline.Placed allowed p → Value.Placed allowed (.nested p)

end

variable {allowed : Nat → Prop}

theorem Call.Placed.offset {c : Call} (placed : c.Placed allowed) : allowed c.offset := by
  cases placed with
  | mk offset args => exact offset

theorem Call.Placed.args {c : Call} (placed : c.Placed allowed) : ∀ a ∈ c.args, a.Placed allowed := by
  cases placed with
  | mk offset args => exact args

theorem Arg.Placed.offset {a : Arg} (placed : a.Placed allowed) : allowed a.offset := by
  cases placed with
  | mk offset value => exact offset

theorem Pipeline.Placed.extended {p : Pipeline} {calls : List Call} (placed : p.Placed allowed)
    (more : ∀ c ∈ calls, c.Placed allowed) : Pipeline.Placed allowed { p with stages := p.stages ++ calls } := by
  cases placed with
  | mk base stages =>
    refine .mk base fun c member => ?_
    exact (List.mem_append.mp member).elim (stages c) (more c)

namespace Source

/-- A result is as it should be, or else the error is. -/
def Answers {ε α : Type} (blame : ε → Prop) (post : α → Prop) : Except ε α → Prop
  | .ok a => post a
  | .error e => blame e

theorem Answers.bind {ε α β : Type} {x : Except ε α} {f : α → Except ε β} {blame : ε → Prop} {post : α → Prop}
    {postToo : β → Prop} (answers : Answers blame post x) (next : ∀ a, post a → Answers blame postToo (f a)) :
    Answers blame postToo (x >>= f) := by
  cases x with
  | ok a => exact next a answers
  | error e => exact answers

def SyntaxError.At (allowed : Nat → Prop) (e : SyntaxError) : Prop := allowed e.offset

end Source

namespace Pipeline

open Source

/-- All offsets that a parser sees are allowed. -/
structure Cursor.Within (allowed : Nat → Prop) (c : Cursor) : Prop where
  ahead : ∀ t ∈ c.ahead, allowed t.start
  stop : allowed c.stop

theorem Cursor.Within.offset {c : Cursor} (within : c.Within allowed) : allowed c.offset := by
  obtain ⟨ahead, stop⟩ := c
  cases ahead with
  | nil => exact within.stop
  | cons t tail => exact within.ahead t List.mem_cons_self

theorem Cursor.Within.advance {c : Cursor} (within : c.Within allowed) : c.advance.Within allowed :=
  ⟨fun t member => within.ahead t (List.mem_of_mem_tail member), within.stop⟩

namespace Parser

/-- Where all offsets ahead are allowed the parser complains at allowed offsets only, and what it makes is as it should
be. -/
def Heeds {α : Type} (allowed : Nat → Prop) (parse : Parser α) (post : α → Prop) : Prop :=
  ∀ c : Cursor, c.Within allowed →
    Answers (SyntaxError.At allowed) (fun result : α × Cursor => post result.1 ∧ result.2.Within allowed) (parse c)

section

variable {α β : Type} {x : Parser α} {f : α → Parser β} {post : α → Prop} {postToo : β → Prop}

theorem heeds_pure {a : α} (holds : post a) : Heeds allowed (pure a) post := fun _ within => ⟨holds, within⟩

theorem Heeds.bind (heeds : Heeds allowed x post) (next : ∀ a, post a → Heeds allowed (f a) postToo) :
    Heeds allowed (x >>= f) postToo := by
  intro c within
  exact Answers.bind (heeds c within) fun result holds => next result.1 holds.1 result.2 holds.2

theorem heeds_peek : Heeds allowed peek fun _ => True := fun _ within => ⟨trivial, within⟩

theorem heeds_peekFollowing : Heeds allowed peekFollowing fun _ => True := fun _ within => ⟨trivial, within⟩

theorem heeds_offset : Heeds allowed offset allowed := fun _ within => ⟨within.offset, within⟩

theorem heeds_advance : Heeds allowed advance fun _ => True := fun _ within => ⟨trivial, within.advance⟩

theorem heeds_failAt {here : Nat} {complaint : Complaint} (isAllowed : allowed here) :
    Heeds allowed (failAt here complaint) post := fun _ _ => isAllowed

theorem heeds_fail {complaint : Complaint} : Heeds allowed (fail complaint) post := fun _ within => within.offset

theorem heeds_ite {condition : Prop} [Decidable condition] {y : Parser α} (first : Heeds allowed x post)
    (second : Heeds allowed y post) : Heeds allowed (if condition then x else y) post := by
  split
  · exact first
  · exact second

theorem heeds_expect (wanted : Kind) : Heeds allowed (expect wanted) fun _ => True := by
  apply heeds_peek.bind
  intro found _
  exact heeds_ite heeds_advance heeds_fail

theorem heeds_accept (wanted : Kind) : Heeds allowed (accept wanted) fun _ => True := by
  apply heeds_peek.bind
  intro found _
  exact heeds_ite (heeds_advance.bind fun _ _ => heeds_pure trivial) (heeds_pure trivial)

end

variable {readValue : Parser Value} {readArg : Parser Arg} {readCall : Parser Call} {bound : Nat}

theorem heeds_arg (value : Heeds allowed readValue (Value.Placed allowed)) :
    Heeds allowed (arg readValue) (Arg.Placed allowed) := by
  apply heeds_offset.bind
  intro start isStart
  apply heeds_peek.bind
  intro found _
  apply heeds_peekFollowing.bind
  intro following _
  split
  · apply heeds_advance.bind
    intro _ _
    apply heeds_advance.bind
    intro _ _
    exact value.bind fun v placed => heeds_pure (.mk isStart placed)
  · exact value.bind fun v placed => heeds_pure (.mk isStart placed)

theorem heeds_argsBehind (arg : Heeds allowed readArg (Arg.Placed allowed)) {read : Array Arg}
    (before : ∀ a ∈ read, a.Placed allowed) :
    Heeds allowed (argsBehind readArg bound read) fun as => ∀ a ∈ as, a.Placed allowed := by
  induction bound generalizing read with
  | zero => exact heeds_fail
  | succ bound ih =>
    rw [argsBehind]
    apply arg.bind
    intro a placed
    have all : ∀ b ∈ read.push a, b.Placed allowed := by
      intro b member
      rcases Array.mem_push.mp member with earlier | rfl
      · exact before b earlier
      · exact placed
    apply (heeds_accept .comma).bind
    intro more _
    split
    · exact ih all
    · exact (heeds_expect .closeParen).bind fun _ _ => heeds_pure fun b member => all b (Array.mem_toList_iff.mp member)

theorem heeds_call (arg : Heeds allowed readArg (Arg.Placed allowed)) :
    Heeds allowed (call bound readArg) (Call.Placed allowed) := by
  apply heeds_offset.bind
  intro start isStart
  have bare (name : String) : Call.Placed allowed ⟨name, [], start⟩ := .mk isStart fun a member => nomatch member
  apply heeds_peek.bind
  intro found _
  split
  · apply heeds_advance.bind
    intro _ _
    apply (heeds_accept .openParen).bind
    intro opens _
    split
    · apply (heeds_accept .closeParen).bind
      intro closes _
      split
      · exact heeds_pure (bare _)
      · have args : Heeds allowed (argsBehind readArg bound #[]) _ := heeds_argsBehind arg (by simp)
        exact args.bind fun as placed => heeds_pure (.mk isStart placed)
    · exact heeds_pure (bare _)
  · exact heeds_failAt isStart

theorem heeds_stagesBehind (call : Heeds allowed readCall (Call.Placed allowed)) {read : Array Call}
    (before : ∀ c ∈ read, c.Placed allowed) :
    Heeds allowed (stagesBehind readCall bound read) fun calls => ∀ c ∈ calls, c.Placed allowed := by
  have done {read : Array Call} (before : ∀ c ∈ read, c.Placed allowed) :
      Heeds allowed (pure read.toList) fun calls => ∀ c ∈ calls, c.Placed allowed :=
    heeds_pure fun c member => before c (Array.mem_toList_iff.mp member)
  induction bound generalizing read with
  | zero => exact done before
  | succ bound ih =>
    rw [stagesBehind]
    apply (heeds_accept .pipe).bind
    intro more _
    split
    · apply call.bind
      intro stage placed
      apply ih
      intro c member
      rcases Array.mem_push.mp member with earlier | rfl
      · exact before c earlier
      · exact placed
    · exact done before

theorem heeds_stages (arg : Heeds allowed readArg (Arg.Placed allowed)) :
    Heeds allowed (stages bound readArg) fun calls => ∀ c ∈ calls, c.Placed allowed :=
  heeds_stagesBehind (heeds_call arg) (by simp)

theorem heeds_fillBehind {width : Int} {start : Nat} (isStart : allowed start) :
    Heeds allowed (fillBehind width start) (Base.Placed allowed) := by
  apply heeds_peek.bind
  intro found _
  split
  · apply heeds_advance.bind
    intro _ _
    apply heeds_peek.bind
    intro high _
    split
    · apply heeds_advance.bind
      intro _ _
      apply heeds_peek.bind
      intro painted _
      split
      · exact heeds_advance.bind fun _ _ => heeds_pure (.fill isStart)
      · exact heeds_advance.bind fun _ _ => heeds_pure (.fill isStart)
      · exact heeds_fail
    · exact heeds_fail
  · exact heeds_fail

theorem heeds_base (call : Heeds allowed readCall (Call.Placed allowed)) :
    Heeds allowed (base readCall) (Base.Placed allowed) := by
  apply heeds_offset.bind
  intro start isStart
  apply heeds_peekFollowing.bind
  intro following _
  apply heeds_peek.bind
  intro found _
  split
  · exact heeds_advance.bind fun _ _ => heeds_fillBehind isStart
  · split
    · exact call.bind fun c placed => heeds_pure (.sheet placed)
    · split
      · exact call.bind fun c placed => heeds_pure (.canvas placed)
      · exact heeds_advance.bind fun _ _ => heeds_pure (.texture isStart)
  · exact heeds_advance.bind fun _ _ => heeds_pure (.texture isStart)
  · exact heeds_failAt isStart

theorem heeds_textureName (arg : Heeds allowed readArg (Arg.Placed allowed)) :
    Heeds allowed (textureName readArg bound) (Pipeline.Placed allowed) := by
  induction bound with
  | zero => exact heeds_fail
  | succ bound ih =>
    rw [textureName]
    apply arg.bind
    intro a placed
    split
    · exact heeds_failAt placed.offset
    · split
      · split
        · exact heeds_failAt placed.offset
        · apply (heeds_accept .comma).bind
          intro more _
          split
          · exact ih
          · exact heeds_pure (.mk (.texture placed.offset) (List.forall_mem_nil _))
      · exact heeds_failAt placed.offset

theorem heeds_whole {readNested : Parser Pipeline} (nested : Heeds allowed readNested (Pipeline.Placed allowed))
    (arg : Heeds allowed readArg (Arg.Placed allowed)) :
    Heeds allowed (whole bound readNested readArg) (Pipeline.Placed allowed) := by
  have plain : Heeds allowed (do
      let first ← base (call bound readArg)
      pure (⟨first, ← stages bound readArg⟩ : Pipeline)) (Pipeline.Placed allowed) := by
    apply (heeds_base (heeds_call arg)).bind
    intro first placed
    exact (heeds_stages arg).bind fun calls more => heeds_pure (.mk placed more)
  apply heeds_peek.bind
  intro found _
  apply heeds_peekFollowing.bind
  intro following _
  apply heeds_ite
  · apply nested.bind
    intro inner placed
    exact (heeds_stages arg).bind fun calls more => heeds_pure (placed.extended more)
  · exact heeds_ite (heeds_advance.bind fun _ _ => plain) plain

theorem heeds_nested {readValue : Nat → Parser Value} {room : Nat}
    (values : ∀ room, Heeds allowed (readValue room) (Value.Placed allowed)) :
    Heeds allowed (nested bound readValue room) (Pipeline.Placed allowed) := by
  induction room with
  | zero => exact heeds_fail
  | succ room ih =>
    have arg := heeds_arg (values room)
    rw [nested]
    apply heeds_advance.bind
    intro _ _
    apply (heeds_accept .openParen).bind
    intro opens _
    split
    · apply heeds_peekFollowing.bind
      intro following _
      have closed {inner : Parser Pipeline} (heeds : Heeds allowed inner (Pipeline.Placed allowed)) :
          Heeds allowed (do
            let p ← inner
            expect .closeParen
            pure p) (Pipeline.Placed allowed) := by
        apply heeds.bind
        intro p placed
        exact (heeds_expect .closeParen).bind fun _ _ => heeds_pure placed
      split
      · exact closed (heeds_textureName arg)
      · exact closed (heeds_whole ih arg)
    · apply (heeds_base (heeds_call arg)).bind
      intro b placed
      exact heeds_pure (.mk placed (List.forall_mem_nil _))

theorem heeds_value {turns : Nat} : ∀ room, Heeds allowed (value bound turns room) (Value.Placed allowed) := by
  induction turns with
  | zero => exact fun _ => heeds_fail
  | succ turns ih =>
    intro room
    rw [value]
    apply heeds_peek.bind
    intro found _
    apply heeds_peekFollowing.bind
    intro following _
    apply heeds_ite
    · apply (heeds_nested ih).bind
      intro inner placed
      exact (heeds_stages (heeds_arg (ih room))).bind fun calls more => heeds_pure (.nested (placed.extended more))
    · split
      · exact heeds_advance.bind fun _ _ => heeds_pure .int
      · exact heeds_advance.bind fun _ _ => heeds_pure .str
      · exact heeds_advance.bind fun _ _ => heeds_pure .ident
      · exact heeds_fail

theorem heeds_program : Heeds allowed (program bound) (Pipeline.Placed allowed) := by
  apply (heeds_whole (heeds_nested heeds_value) (heeds_arg (heeds_value _))).bind
  intro p placed
  exact (heeds_expect .finish).bind fun _ _ => heeds_pure placed

end Parser

/-- The parser complains at tokens or at the end of the text, and takes all offsets in its trees from there. -/
theorem answers_parse? {text : String} {tokens : List Token} (lexed : lex text = .ok tokens)
    (starts : ∀ t ∈ tokens, allowed t.start) (stop : allowed text.utf8ByteSize) :
    Answers (SyntaxError.At allowed) (Pipeline.Placed allowed) (parse? text) := by
  have heeds : Parser.Heeds allowed (Parser.program (tokens.length + 1)) _ := Parser.heeds_program
  have answers := heeds ⟨tokens, text.utf8ByteSize⟩ ⟨starts, stop⟩
  rw [parse?_eq_map lexed]
  cases ran : Parser.program (tokens.length + 1) ⟨tokens, text.utf8ByteSize⟩ with
  | error e =>
    rw [ran] at answers
    exact answers
  | ok result =>
    rw [ran] at answers
    exact answers.1

end Pipeline

end TextureLoom
