import Mathlib.Logic.Relation
import TextureLoom.Proofs.Compile.Arranging
import TextureLoom.Proofs.Compile.Parameters
import TextureLoom.Proofs.Pipeline.Nesting

set_option autoImplicit false

namespace TextureLoom

namespace Compile

open Bytecode (Instr)

/-! ### Arguments that count, and those that do not -/

/-- Two calls that differ in nothing but values that are not looked up. -/
structure Alike (parameters : List Parameter) (call other : Call) : Prop where
  name : call.name = other.name
  offset : call.offset = other.offset
  labels : call.args.map (fun a => (a.name, a.offset)) = other.args.map fun a => (a.name, a.offset)
  looked : ∀ parameter ∈ parameters,
    call.arg? parameter.names parameter.position = other.arg? parameter.names parameter.position

section

variable {parameters : List Parameter} {call other : Call}

theorem Alike.checkArgs_eq (alike : Alike parameters call other) (names : List String) (unnamed : Nat) :
    checkArgs call names unnamed = checkArgs other names unnamed := by
  have go : ∀ (args others : List Arg) (seen : Nat),
      args.map (fun a => (a.name, a.offset)) = others.map (fun a => (a.name, a.offset)) →
        checkArgs.go call names unnamed seen args = checkArgs.go other names unnamed seen others := by
    intro args
    induction args with
    | nil =>
      intro others seen same
      rw [List.map_eq_nil_iff.mp same.symm]
      rfl
    | cons a rest ih =>
      intro others seen same
      cases others with
      | nil => cases same
      | cons b others =>
        obtain ⟨label, later⟩ := List.cons.inj same
        obtain ⟨sameName, sameOffset⟩ := Prod.mk.inj label
        rw [checkArgs.go, checkArgs.go, sameName, sameOffset, alike.name, ih others seen later,
          ih others (seen + 1) later]
  exact go call.args other.args 0 alike.labels

theorem animationOf_eq {shift : Nat} (looked : ∀ parameter ∈ frameParameters shift,
    call.arg? parameter.names parameter.position = other.arg? parameter.names parameter.position) :
    animationOf call shift = animationOf other shift := by
  simp only [frameParameters, List.forall_mem_cons] at looked
  obtain ⟨width, height, frames, fps, smooth, axis, _⟩ := looked
  simp only [animationOf, animationWord, animationRate, animationAxis, width, height, frames, fps, smooth, axis]

/-- Values that are not looked up make no difference to the instruction of a stage. -/
theorem Alike.stageInstr_eq {room : Nat} (alike : Alike (Role.stage.parameters call) call other) :
    Role.stage.instr room call = Role.stage.instr room other := by
  have checked := alike.checkArgs_eq
  obtain ⟨sameName, sameOffset, _, looked⟩ := alike
  rw [Role.parameters] at looked
  rw [Role.instr, Role.instr, stageInstr, stageInstr]
  rw [← sameName]
  split
  case h_17 => rw [sameOffset]
  case h_7 | h_8 | h_11 => rw [checked]
  case h_16 name =>
    rw [name] at looked
    rw [checked, animationOf_eq looked]
  case h_1 name | h_2 name | h_3 name | h_4 name | h_5 name | h_6 name | h_9 name | h_10 name | h_12 name | h_13 name
  | h_14 name | h_15 name =>
    simp only [name, stageParameters, List.forall_mem_cons] at looked
    simp only [checked, required, intOr, looked, ← sameName, sameOffset]

theorem Alike.sheetInstr_eq {room : Nat} (alike : Alike (Role.sheet.parameters call) call other) :
    Role.sheet.instr room call = Role.sheet.instr room other := by
  obtain ⟨source, looked⟩ := List.forall_mem_cons.mp alike.looked
  simp only [Role.instr, baseInstr, alike.checkArgs_eq, source, alike.offset, animationOf_eq looked]

variable {role : Role} {room : Nat} {i : Instr Piece} {before after : List Arg} {a : Arg} {parameter : Parameter}

/-- The argument behind some others and in front of some more counts: where the call is accepted, some other value in
its place would give another instruction, or none. -/
def Role.Heeds (role : Role) (call : Call) (before : List Arg) (a : Arg) (after : List Arg) : Prop :=
  ∃ room i v, role.instr room call = .ok i ∧ role.instr room (call.substitute before a after v) ≠ .ok i

/-- The value of an argument that another one goes before makes no difference. -/
theorem alike_substitute (member : parameter ∈ role.parameters call) (written : call.args = before ++ a :: after)
    (isFor : parameter.IsFor before a) (overrules : parameter.Overrules before a after) (v : Value) :
    Alike (role.parameters call) call (call.substitute before a after v) where
  name := rfl
  offset := rfl
  labels := by rw [Call.substitute, written, List.map_append, List.map_append, List.map_cons, List.map_cons]
  looked := by
    intro other otherMember
    refine (Parameter.arg?_substitute_eq written (fun otherIs => ?_) v).symm
    rwa [(role.tidy call).eq_of_isFor otherMember member otherIs isFor]

theorem Role.parameters_substitute (written : call.args = before ++ a :: after) (v : Value) :
    role.parameters (call.substitute before a after v) = role.parameters call := by
  cases role with
  | stage => rfl
  | sheet => rfl
  | canvas =>
    have sameLength : (call.substitute before a after v).args.length = call.args.length := by
      rw [written, Call.substitute, List.length_append, List.length_append, List.length_cons, List.length_cons]
    rw [parameters, parameters, sameLength]

/-- In a call that is accepted, an argument counts unless another argument for its operand goes before it. -/
theorem Role.heeds_iff (success : role.instr room call = .ok i) (written : call.args = before ++ a :: after)
    (member : parameter ∈ role.parameters call) (isFor : parameter.IsFor before a) :
    role.Heeds call before a after ↔ ¬parameter.Overrules before a after := by
  constructor
  · rintro ⟨room, i, v, accepted, differs⟩ overrules
    have alike := alike_substitute member written isFor overrules v
    cases role with
    | stage => exact differs (alike.stageInstr_eq.symm.trans accepted)
    | sheet => exact differs (alike.sheetInstr_eq.symm.trans accepted)
    | canvas =>
      obtain ⟨index, _, rfl⟩ := List.mem_map.mp member
      have unnamed := unnamed_of_canvas success a (written ▸ List.mem_append_right _ List.mem_cons_self)
      exact Parameter.not_overrules_of_nameless unnamed rfl overrules
  · intro first
    refine ⟨room, i, parameter.wanted.stranger, success, fun accepted => ?_⟩
    have found := Parameter.arg?_substitute call isFor first parameter.wanted.stranger
    have memberToo : parameter ∈ role.parameters (call.substitute before a after parameter.wanted.stranger) := by
      rwa [parameters_substitute written]
    exact parameter.wanted.not_admits_stranger (Role.admits accepted memberToo found)

end

end Compile

/-! ### All calls of a pipeline -/

open Compile (Parameter Role)

/-- The call of a base image that is one. -/
def Base.calls : Base → List (Role × Call)
  | .texture .. | .fill .. => []
  | .sheet call => [(.sheet, call)]
  | .canvas call => [(.canvas, call)]

/-- The images among the arguments of a call. -/
def Compile.Role.pieces : Role → Call → List Compile.Piece
  | .stage, call => call.pieces
  | .sheet, call => (Base.sheet call).pieces
  | .canvas, call => (Base.canvas call).pieces

namespace Pipeline

/-- The calls that a pipeline is written with, those of nested pipelines not included. -/
def calls (p : Pipeline) : List (Role × Call) := p.base.calls ++ p.stages.map fun call => (.stage, call)

/-- The images that a pipeline is made of. -/
def pieces (p : Pipeline) : List Compile.Piece := p.base.pieces ++ p.stages.flatMap Call.pieces

/-- A pipeline stands in another one: it is the same, or nested in any of its arguments. -/
def Contains : Pipeline → Pipeline → Prop := Relation.ReflTransGen fun outer inner => inner ∈ outer.written

/-- A pipeline is a part of another one: it is the same, or nested in an argument that is taken for an image. -/
def Takes : Pipeline → Pipeline → Prop := Relation.ReflTransGen fun outer inner => inner ∈ outer.nested

/-- No argument is ignored: each call belongs to a pipeline that is taken, and each of its arguments counts. -/
def Heedful (p : Pipeline) : Prop :=
  ∀ q, p.Contains q → ∀ role call, (role, call) ∈ q.calls →
    p.Takes q ∧ ∀ before a after, call.args = before ++ a :: after → role.Heeds call before a after

/-- No operand is given twice. -/
def GivesOnce (p : Pipeline) : Prop :=
  ∀ q, p.Contains q → ∀ role call, (role, call) ∈ q.calls →
    ∀ parameter ∈ role.parameters call, (parameter.arguments call.args).length ≤ 1

variable {p q : Pipeline} {role : Role} {call : Call}

theorem mem_calls : (role, call) ∈ p.calls ↔ role = .sheet ∧ p.base = .sheet call ∨
    role = .canvas ∧ p.base = .canvas call ∨ role = .stage ∧ call ∈ p.stages := by
  obtain ⟨base, stages⟩ := p
  rw [calls, List.mem_append, List.mem_map]
  cases base <;> grind [Base.calls]

theorem pieces_subset (member : (role, call) ∈ p.calls) : role.pieces call ⊆ p.pieces := by
  intro piece inCall
  rcases mem_calls.mp member with ⟨rfl, base⟩ | ⟨rfl, base⟩ | ⟨rfl, isStage⟩
  · exact List.mem_append_left _ (base ▸ inCall)
  · exact List.mem_append_left _ (base ▸ inCall)
  · exact List.mem_append_right _ (List.mem_flatMap.mpr ⟨call, isStage, inCall⟩)

/-- What is nested in a pipeline is nested in an argument of one of its calls. -/
theorem exists_arg_of_written {inner : Pipeline} (member : inner ∈ p.written) :
    ∃ role call, (role, call) ∈ p.calls ∧ ∃ a ∈ call.args, a.value.nested? = some inner := by
  obtain ⟨a, isArg, isNested⟩ := List.mem_filterMap.mp member
  rcases List.mem_append.mp isArg with inBase | inStages
  · cases base : p.base with
    | texture name offset | fill w h c offset =>
      rw [base] at inBase
      cases inBase
    | sheet call =>
      rw [base] at inBase
      exact ⟨.sheet, call, mem_calls.mpr (.inl ⟨rfl, base⟩), a, inBase, isNested⟩
    | canvas call =>
      rw [base] at inBase
      exact ⟨.canvas, call, mem_calls.mpr (.inr (.inl ⟨rfl, base⟩)), a, inBase, isNested⟩
  · obtain ⟨call, isStage, inArgs⟩ := List.mem_flatMap.mp inStages
    exact ⟨.stage, call, mem_calls.mpr (.inr (.inr ⟨rfl, isStage⟩)), a, inArgs, isNested⟩

end Pipeline

namespace Compile

open Bytecode (Instr)

variable {room : Nat} {p q : Pipeline} {role : Role} {call : Call} {i : Instr Piece} {a : Arg} {parameter : Parameter}

theorem exists_of_mapM_eq_ok {calls : List Call} (isStage : call ∈ calls) :
    ∀ {instrs : List (Instr Piece)}, calls.mapM (stageInstr room) = .ok instrs → ∃ i, stageInstr room call = .ok i := by
  induction calls with
  | nil => cases isStage
  | cons first rest ih =>
    intro instrs success
    obtain ⟨i, others, isFirst, areOthers, rfl⟩ := mapM_cons_eq_ok success
    rcases List.mem_cons.mp isStage with rfl | later
    · exact ⟨i, isFirst⟩
    · exact ih later areOthers

/-- All calls of a pipeline that is compiled are accepted. -/
theorem IsReadAs.exists_instr {instrs : List (Instr Piece)} (read : IsReadAs room p instrs)
    (member : (role, call) ∈ p.calls) : ∃ i, role.instr room call = .ok i := by
  obtain ⟨first, rest, isBase, areStages, rfl⟩ := read
  rcases Pipeline.mem_calls.mp member with ⟨rfl, base⟩ | ⟨rfl, base⟩ | ⟨rfl, isStage⟩
  · rw [base] at isBase
    exact ⟨first, isBase⟩
  · rw [base] at isBase
    exact ⟨first, isBase⟩
  · exact exists_of_mapM_eq_ok isStage areStages

/-- The pipelines of a draft are compiled. -/
theorem exists_isReadAs_of_mem {d : Draft} {jobs : List Job} (isDraft : Draft.IsDraftOf d jobs p)
    (isJob : q ∈ jobs.map (·.pipeline)) : ∃ room instrs, IsReadAs room q instrs := by
  obtain ⟨job, member, rfl⟩ := List.mem_map.mp isJob
  obtain ⟨index, found⟩ := List.getElem?_of_mem member
  obtain ⟨block, _, _, isBlock⟩ := exists_block isDraft found
  exact ⟨_, _, isBlock.instrs⟩

/-- All that a pipeline takes is compiled with it. -/
theorem exists_isReadAs {d : Draft} {jobs : List Job} (isDraft : Draft.IsDraftOf d jobs p) (takes : p.Takes q) :
    ∃ room instrs, IsReadAs room q instrs := by
  have order := breadthFirst_of_isDraft isDraft
  refine exists_isReadAs_of_mem isDraft ?_
  induction takes with
  | refl =>
    rw [order]
    exact List.mem_cons_self
  | tail _ nested ih =>
    rw [order]
    exact List.mem_cons_of_mem _ (List.mem_flatMap.mpr ⟨_, ih, nested⟩)

theorem mem_thirds_of_getElem? {args : List Arg} :
    ∀ {index : Nat}, args[index]? = some a → index % 3 = 2 → a ∈ Base.thirds args := by
  induction args using Base.thirds.induct with
  | case1 x y source rest ih =>
    intro index found isThird
    rcases index with _ | _ | _ | index
    · cases isThird
    · cases isThird
    · cases found
      exact List.mem_cons_self
    · rw [Nat.add_assoc, Nat.add_assoc, Nat.add_mod_right] at isThird
      exact List.mem_cons_of_mem _ (ih found isThird)
  | case2 args short =>
    intro index found isThird
    have bound := (List.getElem?_eq_some_iff.mp found).1
    rcases args with _ | ⟨x, _ | ⟨y, _ | ⟨source, rest⟩⟩⟩
    · cases found
    · rw [List.length_singleton] at bound
      omega
    · rw [List.length_cons, List.length_singleton] at bound
      omega
    · exact absurd rfl (short x y source rest)

/-- What is looked up for an image is one of the images of the call. -/
theorem Role.mem_pieces (success : role.instr room call = .ok i) (member : parameter ∈ role.parameters call)
    (wanted : parameter.wanted = .image) (found : call.arg? parameter.names parameter.position = some a) {piece : Piece}
    (isPiece : a.value.piece? = some piece) : piece ∈ role.pieces call := by
  cases role with
  | stage =>
    rcases eq_of_mem_stageParameters parameter member wanted with ⟨rfl, name | name⟩ | ⟨rfl, name⟩
    all_goals
      simp only [pieces, Call.pieces, name, found, Option.bind_some, isPiece]
      exact List.mem_singleton_self _
  | sheet =>
    rcases List.mem_cons.mp member with rfl | member
    · rw [pieces, Base.pieces, found, Option.bind_some, isPiece]
      exact List.mem_singleton_self _
    · exact absurd wanted (wanted_of_mem_frameParameters member)
  | canvas =>
    obtain ⟨index, _, rfl⟩ := List.mem_map.mp member
    rw [arg?_of_unnamed (unnamed_of_canvas success)] at found
    have isThird : index % 3 = 1 ∧ 1 < index := by
      by_contra other
      rw [if_neg other] at wanted
      cases wanted
    have offset : index = 2 + (index - 2) := by omega
    rw [offset, ← List.getElem?_drop] at found
    exact List.mem_filterMap.mpr ⟨a, mem_thirds_of_getElem? found (by omega), isPiece⟩

theorem Wanted.Admits.eq_image {wanted : Wanted} {v : Value} {inner : Pipeline} (admits : wanted.Admits v)
    (isNested : v.nested? = some inner) : wanted = .image := by
  cases wanted with
  | image => rfl
  | number =>
    obtain ⟨n, rfl⟩ := admits
    cases isNested
  | text =>
    obtain ⟨text, isText⟩ := admits
    cases v with
    | int n | nested p => cases isText
    | str name | ident name => cases isNested

/-- In a pipeline whose operands are given once each, all that is written is taken. -/
theorem IsReadAs.mem_nested {instrs : List (Instr Piece)} (read : IsReadAs room q instrs)
    (once : ∀ role call, (role, call) ∈ q.calls → ∀ parameter ∈ role.parameters call,
      (parameter.arguments call.args).length ≤ 1) {inner : Pipeline} (member : inner ∈ q.written) : inner ∈ q.nested := by
  obtain ⟨role, call, isCall, a, isArg, isNested⟩ := Pipeline.exists_arg_of_written member
  obtain ⟨i, success⟩ := read.exists_instr isCall
  obtain ⟨before, after, written⟩ := List.append_of_mem isArg
  obtain ⟨parameter, isParameter, isFor⟩ := Role.exists_isFor success written
  have first : ¬parameter.Overrules before a after := fun overrules =>
    absurd ((parameter.exists_overrules_iff call.args).mp ⟨before, a, after, written, isFor, overrules⟩)
      (Nat.not_lt.mpr (once role call isCall parameter isParameter))
  have found := Parameter.arg?_eq_some written isFor first
  obtain ⟨piece, isPiece, isInner⟩ := Option.bind_eq_some_iff.mp isNested
  have wanted := (Role.admits success isParameter found).eq_image isNested
  have inCall := Role.mem_pieces success isParameter wanted found isPiece
  exact List.mem_filterMap.mpr ⟨piece, Pipeline.pieces_subset isCall inCall, isInner⟩

end Compile

namespace Program

open Compile (Draft Job)
open Pipeline (Derives)
open Source (lex nestingLimit)

/-- In a compiled text each argument of each call that is taken is for one operand. It is the one that is looked up
there, and counts, unless another argument for the operand goes before it. So no argument of the text is ignored just
if no operand is given twice. -/
theorem heedful_iff_givesOnce {text : String} {program : Program} (compiled : compile text = .ok program) :
    ∃ p, Pipeline.parse? text = .ok p ∧
      (∀ q, p.Takes q → ∀ role call, (role, call) ∈ q.calls → ∀ before a after, call.args = before ++ a :: after →
        ∃ parameter ∈ role.parameters call, parameter.IsFor before a ∧
          (∀ other ∈ role.parameters call, other.IsFor before a → other = parameter) ∧
          (¬parameter.Overrules before a after → call.arg? parameter.names parameter.position = some a) ∧
          (role.Heeds call before a after ↔ ¬parameter.Overrules before a after)) ∧
      (p.Heedful ↔ p.GivesOnce) := by
  obtain ⟨p, d, jobs, parsed, isDraft, _⟩ := exists_draft compiled
  have each : ∀ q, p.Takes q → ∀ role call, (role, call) ∈ q.calls → ∀ before a after,
      call.args = before ++ a :: after → ∃ parameter ∈ role.parameters call, parameter.IsFor before a ∧
        (∀ other ∈ role.parameters call, other.IsFor before a → other = parameter) ∧
        (¬parameter.Overrules before a after → call.arg? parameter.names parameter.position = some a) ∧
        (role.Heeds call before a after ↔ ¬parameter.Overrules before a after) := by
    intro q takes role call isCall before a after written
    obtain ⟨room, instrs, read⟩ := Compile.exists_isReadAs isDraft takes
    obtain ⟨i, success⟩ := read.exists_instr isCall
    obtain ⟨parameter, member, isFor⟩ := Role.exists_isFor success written
    refine ⟨parameter, member, isFor, ?_, Parameter.arg?_eq_some written isFor,
      Role.heeds_iff success written member isFor⟩
    exact fun other otherMember otherIs => (role.tidy call).eq_of_isFor otherMember member otherIs isFor
  refine ⟨p, parsed, each, ?_⟩
  constructor
  · intro heedful q contains role call isCall parameter member
    obtain ⟨takes, counts⟩ := heedful q contains role call isCall
    rw [← Nat.not_lt, ← parameter.exists_overrules_iff]
    rintro ⟨before, a, after, written, isFor, overrules⟩
    obtain ⟨_, _, _, only, _, heeds_iff⟩ := each q takes role call isCall before a after written
    rw [only parameter member isFor] at overrules
    exact heeds_iff.mp (counts before a after written) overrules
  · intro once
    have taken : ∀ q, p.Contains q → p.Takes q := by
      intro q contains
      induction contains with
      | refl => exact .refl
      | tail contains written ih =>
        obtain ⟨room, instrs, read⟩ := Compile.exists_isReadAs isDraft ih
        exact ih.tail (read.mem_nested (once _ contains) written)
    intro q contains role call isCall
    refine ⟨taken q contains, fun before a after written => ?_⟩
    obtain ⟨parameter, member, isFor, _, _, heeds_iff⟩ :=
      each q (taken q contains) role call isCall before a after written
    rw [heeds_iff]
    intro overrules
    have several := (parameter.exists_overrules_iff call.args).mp ⟨before, a, after, written, isFor, overrules⟩
    exact absurd several (Nat.not_lt.mpr (once q contains role call isCall parameter member))

/-- An overlay that is given two textures. -/
def overlaidAgain : String := "stone |> overlay(moss, tex=dirt)"

/-- Its overlay. -/
def overlayAgain : Call := ⟨"overlay", [⟨none, .ident "moss", 17⟩, ⟨some "tex", .ident "dirt", 23⟩], 9⟩

theorem parse?_overlaidAgain : Pipeline.parse? overlaidAgain = .ok ⟨.texture "stone" 0, [overlayAgain]⟩ := by
  have lexed : lex overlaidAgain = .ok [⟨.ident "stone", 0, 5⟩, ⟨.pipe, 6, 8⟩, ⟨.ident "overlay", 9, 16⟩,
      ⟨.openParen, 16, 17⟩, ⟨.ident "moss", 17, 21⟩, ⟨.comma, 21, 22⟩, ⟨.ident "tex", 23, 26⟩, ⟨.equals, 26, 27⟩,
      ⟨.ident "dirt", 27, 31⟩, ⟨.closeParen, 31, 32⟩] := by decide +kernel
  have call : Derives nestingLimit (.call overlayAgain) [⟨.ident "overlay", 9, 16⟩, ⟨.openParen, 16, 17⟩,
      ⟨.ident "moss", 17, 21⟩, ⟨.comma, 21, 22⟩, ⟨.ident "tex", 23, 26⟩, ⟨.equals, 26, 27⟩, ⟨.ident "dirt", 27, 31⟩,
      ⟨.closeParen, 31, 32⟩] [] :=
    .call rfl (.moreArgs (.unnamed .ident) rfl (.lastArg (.named rfl .ident))) rfl
  exact Pipeline.parse?_of_derives lexed (.top (.name (by decide)) (.stage call .noStage))

theorem compile_overlaidAgain :
    compile overlaidAgain = .ok ⟨#[1, 0, 0, 0, 0, 30, 0, 0, 0, 0, 0], [⟨2, "stone"⟩, ⟨7, "dirt"⟩], false⟩ := by
  decide +kernel

theorem heedful_iff_givesOnce_overlaidAgain :
    ∃ program p, compile overlaidAgain = .ok program ∧ Pipeline.parse? overlaidAgain = .ok p ∧
      (p.Heedful ↔ p.GivesOnce) ∧ ¬p.GivesOnce := by
  obtain ⟨p, parsed, _, iff⟩ := heedful_iff_givesOnce compile_overlaidAgain
  refine ⟨_, p, compile_overlaidAgain, parsed, iff, fun once => ?_⟩
  cases parse?_overlaidAgain.symm.trans parsed
  have few := once _ .refl .stage _ List.mem_cons_self ⟨["tex", "src"], some 0, .image⟩ List.mem_cons_self
  exact absurd few (by decide)

/-- It is accepted, and its first texture is ignored. -/
theorem not_heedful_overlaidAgain :
    ∃ program p, compile overlaidAgain = .ok program ∧ Pipeline.parse? overlaidAgain = .ok p ∧ ¬p.Heedful := by
  refine ⟨_, _, compile_overlaidAgain, parse?_overlaidAgain, fun heedful => ?_⟩
  have written : overlayAgain.args = [] ++ ⟨none, .ident "moss", 17⟩ :: [⟨some "tex", .ident "dirt", 23⟩] := rfl
  obtain ⟨room, i, v, accepted, differs⟩ := (heedful _ .refl .stage _ List.mem_cons_self).2 _ _ _ written
  have member : ⟨["tex", "src"], some 0, .image⟩ ∈ Role.stage.parameters overlayAgain := List.mem_cons_self
  have alike := Compile.alike_substitute member written (by decide) (by decide) v
  exact differs (alike.stageInstr_eq.symm.trans accepted)

end Program

end TextureLoom
