import Mathlib.Data.List.Nodup
import TextureLoom.Proofs.Compile.Denoting
import TextureLoom.Proofs.Repeats

set_option autoImplicit false

namespace TextureLoom.Compile

open Bytecode (Instr)

/-- What the value of an argument is wanted for. -/
inductive Wanted where
  | number
  | text
  | image
deriving DecidableEq, Repr

/-- Values that can be taken for what is wanted. -/
def Wanted.Admits : Wanted → Value → Prop
  | .number, v => ∃ n, v = .int n
  | .text, v => ∃ text, v.text? = some text
  | .image, v => ∃ piece, v.piece? = some piece

/-- A value that cannot. -/
def Wanted.stranger : Wanted → Value
  | .number => .str ""
  | .text | .image => .int 0

theorem Wanted.not_admits_stranger (wanted : Wanted) : ¬wanted.Admits wanted.stranger := by
  cases wanted with
  | number => exact fun ⟨_, same⟩ => nomatch same
  | text => exact fun ⟨_, same⟩ => nomatch same
  | image => exact fun ⟨_, same⟩ => nomatch same

/-- An operand of an operation: the names that it goes by, and its place among the unnamed arguments. -/
structure Parameter where
  names : List String
  position : Option Nat
  wanted : Wanted
deriving DecidableEq, Repr

/-- How the frames of a sheet are cut and shown; the frame width is the unnamed argument number `shift`. -/
def frameParameters (shift : Nat) : List Parameter :=
  [⟨["frame_w", "w"], some shift, .number⟩, ⟨["frame_h", "h"], some (shift + 1), .number⟩,
    ⟨["frames", "count"], some (shift + 2), .number⟩, ⟨["fps"], some (shift + 3), .number⟩,
    ⟨["smooth"], some (shift + 4), .number⟩, ⟨["axis"], none, .text⟩]

def stageParameters : String → List Parameter
  | "overlay" | "mask" => [⟨["tex", "src"], some 0, .image⟩]
  | "lowpart" => [⟨["percent", "pct"], some 0, .number⟩, ⟨["tex", "src"], some 1, .image⟩]
  | "resize" => [⟨["w", "width"], some 0, .number⟩, ⟨["h", "height"], some 1, .number⟩]
  | "transform" => [⟨["t", "mode"], some 0, .number⟩]
  | "opacity" => [⟨["a", "alpha", "value"], some 0, .number⟩]
  | "make_alpha" | "multiply" | "screen" => [⟨["color"], some 0, .text⟩]
  | "invert" => [⟨["channels"], some 0, .text⟩]
  | "contrast" => [⟨["value", "contrast"], some 0, .number⟩, ⟨["brightness"], some 1, .number⟩]
  | "colorize" => [⟨["color"], some 0, .text⟩, ⟨["ratio"], some 1, .number⟩]
  | "anim" => frameParameters 0
  | _ => []

/-- What a call stands for in a pipeline. -/
inductive Role where
  | stage
  | sheet
  | canvas
deriving DecidableEq, Repr

/-- The operands of a call. Those of a canvas are its size, then column, row and image of each inset. -/
def Role.parameters : Role → Call → List Parameter
  | .stage, call => stageParameters call.name
  | .sheet, _ => ⟨["tex"], some 0, .image⟩ :: frameParameters 1
  | .canvas, call =>
    (List.range call.args.length).map fun index => ⟨[], some index, if index % 3 = 1 ∧ 1 < index then .image else .number⟩

/-- The instruction of a call. -/
def Role.instr (room : Nat) : Role → Call → Checked (Instr Piece)
  | .stage, call => stageInstr room call
  | .sheet, call => baseInstr room (.sheet call)
  | .canvas, call => baseInstr room (.canvas call)

namespace Parameter

/-- An argument behind some others is for the operand if it has one of its names, or none and stands at its place. -/
def IsFor (parameter : Parameter) (before : List Arg) (a : Arg) : Prop :=
  match a.name with
  | some name => name ∈ parameter.names
  | none => parameter.position = some (before.countP (·.name.isNone))

/-- Another argument for the operand goes before one: a named argument in front of a named one, and any named argument
before an unnamed one. -/
def Overrules (parameter : Parameter) (before : List Arg) (a : Arg) (after : List Arg) : Prop :=
  match a.name with
  | some _ => ∃ b ∈ before, b.isNamed parameter.names
  | none => ∃ b ∈ before ++ after, b.isNamed parameter.names

/-- The arguments for the operand, named ones first. -/
def arguments (parameter : Parameter) (args : List Arg) : List Arg :=
  args.filter (·.isNamed parameter.names) ++
    (parameter.position.bind fun index => (args.filter (·.name.isNone))[index]?).toList

instance (parameter : Parameter) (before : List Arg) (a : Arg) : Decidable (parameter.IsFor before a) := by
  unfold IsFor
  split <;> infer_instance

instance (parameter : Parameter) (before : List Arg) (a : Arg) (after : List Arg) :
    Decidable (parameter.Overrules before a after) := by
  unfold Overrules
  split <;> infer_instance

end Parameter

end TextureLoom.Compile

namespace TextureLoom

open Compile (Parameter)

/-- The call with another value in the place of that of an argument. -/
def Call.substitute (call : Call) (before : List Arg) (a : Arg) (after : List Arg) (v : Value) : Call :=
  { call with args := before ++ { a with value := v } :: after }

theorem Arg.isNamed_eq_false {names : List String} {a : Arg} (unnamed : a.name = none) : a.isNamed names = false := by
  rw [isNamed, unnamed]

theorem Arg.isNamed_iff {names : List String} {a : Arg} {name : String} (named : a.name = some name) :
    a.isNamed names ↔ name ∈ names := by
  rw [isNamed, named, List.contains_iff_mem]

theorem Arg.exists_name_of_isNamed {names : List String} {b : Arg} (isNamed : b.isNamed names) :
    ∃ name, b.name = some name ∧ name ∈ names := by
  unfold Arg.isNamed at isNamed
  split at isNamed
  · next name named => exact ⟨name, named, List.contains_iff_mem.mp isNamed⟩
  · cases isNamed

theorem countP_unnamed {args : List Arg} (unnamed : ∀ a ∈ args, a.name = none) :
    args.countP (·.name.isNone) = args.length :=
  List.countP_eq_length.mpr fun a member => by rw [unnamed a member, Option.isNone_none]

theorem filter_unnamed_of_named {a : Arg} {name : String} (named : a.name = some name) (before after : List Arg) :
    (before ++ a :: after).filter (·.name.isNone) =
      before.filter (·.name.isNone) ++ after.filter (·.name.isNone) := by
  simp [named]

theorem filter_unnamed_of_unnamed {a : Arg} (unnamed : a.name = none) (before after : List Arg) :
    (before ++ a :: after).filter (·.name.isNone) =
      before.filter (·.name.isNone) ++ a :: after.filter (·.name.isNone) := by
  simp [unnamed]

namespace Compile.Parameter

variable {parameter : Parameter} {call : Call} {before after : List Arg} {a : Arg}

theorem isFor_of_named {name : String} (named : a.name = some name) :
    parameter.IsFor before a ↔ name ∈ parameter.names := by
  rw [IsFor, named]

theorem isFor_of_unnamed (unnamed : a.name = none) :
    parameter.IsFor before a ↔ parameter.position = some (before.countP (·.name.isNone)) := by
  rw [IsFor, unnamed]

theorem overrules_of_named {name : String} (named : a.name = some name) :
    parameter.Overrules before a after ↔ ∃ b ∈ before, b.isNamed parameter.names := by
  rw [Overrules, named]

theorem overrules_of_unnamed (unnamed : a.name = none) :
    parameter.Overrules before a after ↔ ∃ b ∈ before ++ after, b.isNamed parameter.names := by
  rw [Overrules, unnamed]

theorem not_overrules_of_nameless (unnamed : a.name = none) (nameless : parameter.names = []) :
    ¬parameter.Overrules before a after := by
  rw [overrules_of_unnamed unnamed, nameless]
  rintro ⟨b, _, isNamed⟩
  obtain ⟨_, _, isName⟩ := Arg.exists_name_of_isNamed isNamed
  cases isName

/-- The first argument for the operand is the one that is looked up. -/
theorem arg?_eq_head? (parameter : Parameter) (call : Call) :
    call.arg? parameter.names parameter.position = (parameter.arguments call.args).head? := by
  rw [Call.arg?, arguments, List.head?_append, List.head?_filter]
  cases call.args.find? (Arg.isNamed parameter.names) with
  | some b => rfl
  | none =>
    rw [Option.none_or]
    cases parameter.position.bind fun index => (call.args.filter (·.name.isNone))[index]? <;> rfl

/-- An unnamed argument stands at its place among the unnamed ones. -/
theorem getElem?_unnamed (unnamed : a.name = none) (before after : List Arg) :
    ((before ++ a :: after).filter (·.name.isNone))[before.countP (·.name.isNone)]? = some a := by
  rw [filter_unnamed_of_unnamed unnamed, List.countP_eq_length_filter, List.getElem?_append_right (Nat.le_refl _),
    Nat.sub_self]
  rfl

/-- An argument for the operand that no other goes before is looked up, whatever its value is. -/
theorem arg?_substitute (call : Call) (isFor : parameter.IsFor before a)
    (first : ¬parameter.Overrules before a after) (v : Value) :
    (call.substitute before a after v).arg? parameter.names parameter.position = some { a with value := v } := by
  rw [Call.arg?, Call.substitute, List.find?_append, List.find?_cons]
  obtain unnamed | ⟨name, named⟩ := Option.eq_none_or_eq_some a.name
  · rw [isFor_of_unnamed unnamed] at isFor
    rw [overrules_of_unnamed unnamed] at first
    have noneBefore : before.find? (Arg.isNamed parameter.names) = none :=
      List.find?_eq_none.mpr fun b member isNamed => first ⟨b, List.mem_append_left _ member, isNamed⟩
    have noneAfter : after.find? (Arg.isNamed parameter.names) = none :=
      List.find?_eq_none.mpr fun b member isNamed => first ⟨b, List.mem_append_right _ member, isNamed⟩
    have notNamed : Arg.isNamed parameter.names { a with value := v } = false := Arg.isNamed_eq_false unnamed
    have looked := getElem?_unnamed (a := { a with value := v }) unnamed before after
    rw [noneBefore, notNamed, noneAfter, isFor]
    exact looked
  · rw [overrules_of_named named] at first
    have noneBefore : before.find? (Arg.isNamed parameter.names) = none :=
      List.find?_eq_none.mpr fun b member isNamed => first ⟨b, member, isNamed⟩
    have isNamed : Arg.isNamed parameter.names { a with value := v } = true :=
      (Arg.isNamed_iff named).mpr ((isFor_of_named named).mp isFor)
    rw [noneBefore, isNamed]
    rfl

/-- An argument for the operand that no other goes before is the one that is looked up. -/
theorem arg?_eq_some (written : call.args = before ++ a :: after) (isFor : parameter.IsFor before a)
    (first : ¬parameter.Overrules before a after) : call.arg? parameter.names parameter.position = some a := by
  obtain ⟨name, value, offset⟩ := a
  have same : call.substitute before ⟨name, value, offset⟩ after value = call := by
    obtain ⟨name, args, offset⟩ := call
    cases written
    rfl
  have looked := arg?_substitute call isFor first value
  rwa [same] at looked

/-- What stands at some place of a filtered list stands behind as many picked members of the whole list. -/
theorem exists_split_of_getElem?_filter {α : Type} {p : α → Bool} {l : List α} :
    ∀ {index : Nat} {b : α}, (l.filter p)[index]? = some b →
      ∃ before after, l = before ++ b :: after ∧ before.countP p = index ∧ p b := by
  induction l with
  | nil => exact fun found => nomatch found
  | cons first rest ih =>
    intro index b found
    by_cases picked : p first
    · rw [List.filter_cons_of_pos picked] at found
      cases index with
      | zero =>
        cases found
        exact ⟨[], rest, rfl, rfl, picked⟩
      | succ index =>
        obtain ⟨before, after, rfl, counted, holds⟩ := ih found
        exact ⟨first :: before, after, rfl, by rw [List.countP_cons_of_pos picked, counted], holds⟩
    · rw [List.filter_cons_of_neg picked] at found
      obtain ⟨before, after, rfl, counted, holds⟩ := ih found
      exact ⟨first :: before, after, rfl, by rw [List.countP_cons_of_neg picked, counted], holds⟩

/-- What is looked up is an argument for the operand that no other goes before. -/
theorem exists_split_of_arg? (found : call.arg? parameter.names parameter.position = some a) :
    ∃ before after, call.args = before ++ a :: after ∧ parameter.IsFor before a ∧
      ¬parameter.Overrules before a after := by
  rw [Call.arg?] at found
  cases first : call.args.find? (Arg.isNamed parameter.names) with
  | some b =>
    rw [first] at found
    cases found
    obtain ⟨isNamed, before, after, written, others⟩ := List.find?_eq_some_iff_append.mp first
    obtain ⟨name, named, isName⟩ := Arg.exists_name_of_isNamed isNamed
    refine ⟨before, after, written, (isFor_of_named named).mpr isName, ?_⟩
    · rw [overrules_of_named named]
      rintro ⟨b, member, alsoNamed⟩
      have other := others b member
      rw [alsoNamed] at other
      cases other
  | none =>
    rw [first] at found
    obtain ⟨index, place, found⟩ := Option.bind_eq_some_iff.mp found
    obtain ⟨before, after, written, counted, unnamed⟩ := exists_split_of_getElem?_filter found
    rw [Option.isNone_iff_eq_none] at unnamed
    refine ⟨before, after, written, ?_, ?_⟩
    · rw [isFor_of_unnamed unnamed, place, counted]
    · rw [overrules_of_unnamed unnamed]
      rintro ⟨b, member, isNamed⟩
      have isArg : b ∈ call.args := by
        rw [written]
        exact ((List.sublist_cons_self a after).append_left before).subset member
      exact List.find?_eq_none.mp first b isArg isNamed

/-- Away from one place the value there is not seen. -/
theorem getElem?_append_cons_of_ne {α : Type} {before after : List α} {index : Nat} (elsewhere : index ≠ before.length)
    (x y : α) : (before ++ x :: after)[index]? = (before ++ y :: after)[index]? := by
  rcases Nat.lt_or_gt_of_ne elsewhere with less | greater
  · rw [List.getElem?_append_left less, List.getElem?_append_left less]
  · obtain ⟨gap, rfl⟩ := Nat.exists_eq_add_of_lt greater
    rw [List.getElem?_append_right (Nat.le_of_lt greater), List.getElem?_append_right (Nat.le_of_lt greater),
      Nat.add_assoc, Nat.add_sub_cancel_left, List.getElem?_cons_succ, List.getElem?_cons_succ]

/-- The value of an argument that is not for the operand, or that another one goes before, is not looked up. -/
theorem arg?_substitute_eq (written : call.args = before ++ a :: after)
    (passed : parameter.IsFor before a → parameter.Overrules before a after) (v : Value) :
    (call.substitute before a after v).arg? parameter.names parameter.position =
      call.arg? parameter.names parameter.position := by
  have sameName : Arg.isNamed parameter.names { a with value := v } = a.isNamed parameter.names := rfl
  rw [Call.arg?, Call.arg?, Call.substitute, written, List.find?_append, List.find?_append, List.find?_cons,
    List.find?_cons, sameName]
  cases foundBefore : before.find? (Arg.isNamed parameter.names) with
  | some b => rfl
  | none =>
    have noneBefore : ∀ b ∈ before, ¬b.isNamed parameter.names := List.find?_eq_none.mp foundBefore
    obtain unnamed | ⟨name, named⟩ := Option.eq_none_or_eq_some a.name
    · rw [isFor_of_unnamed unnamed, overrules_of_unnamed unnamed] at passed
      rw [Arg.isNamed_eq_false unnamed]
      cases foundAfter : after.find? (Arg.isNamed parameter.names) with
      | some b => rfl
      | none =>
        have noneAfter : ∀ b ∈ after, ¬b.isNamed parameter.names := List.find?_eq_none.mp foundAfter
        have elsewhere : parameter.position ≠ some (before.countP (·.name.isNone)) := by
          intro isFor
          obtain ⟨b, member, isNamed⟩ := passed isFor
          exact (List.mem_append.mp member).elim (fun member => noneBefore b member isNamed)
            fun member => noneAfter b member isNamed
        cases place : parameter.position with
        | none => rfl
        | some index =>
          have differs : index ≠ (before.filter (·.name.isNone)).length := by
            rw [← List.countP_eq_length_filter]
            exact fun same => elsewhere (place.trans (congrArg some same))
          dsimp only [Option.none_or, Option.bind_some]
          rw [filter_unnamed_of_unnamed unnamed, filter_unnamed_of_unnamed (a := { a with value := v }) unnamed]
          exact getElem?_append_cons_of_ne differs _ _
    · rw [isFor_of_named named, overrules_of_named named] at passed
      have notNamed : a.isNamed parameter.names = false := by
        rw [← Bool.not_eq_true, Arg.isNamed_iff named]
        intro isFor
        obtain ⟨b, member, isNamed⟩ := passed isFor
        exact noneBefore b member isNamed
      rw [notNamed, filter_unnamed_of_named named, filter_unnamed_of_named (a := { a with value := v }) named]

theorem one_lt_length_arguments (isFor : parameter.IsFor before a) (overrules : parameter.Overrules before a after) :
    1 < (parameter.arguments (before ++ a :: after)).length := by
  rw [arguments, List.length_append]
  obtain unnamed | ⟨name, named⟩ := Option.eq_none_or_eq_some a.name
  · rw [overrules_of_unnamed unnamed] at overrules
    obtain ⟨b, member, isNamed⟩ := overrules
    have isArg : b ∈ before ++ a :: after := ((List.sublist_cons_self a after).append_left before).subset member
    have first : 0 < ((before ++ a :: after).filter (·.isNamed parameter.names)).length :=
      List.length_pos_of_mem (List.mem_filter.mpr ⟨isArg, isNamed⟩)
    rw [(isFor_of_unnamed unnamed).mp isFor, Option.bind_some, getElem?_unnamed unnamed, Option.toList_some,
      List.length_singleton]
    omega
  · rw [overrules_of_named named] at overrules
    obtain ⟨b, member, isNamed⟩ := overrules
    have first : 0 < (before.filter (·.isNamed parameter.names)).length :=
      List.length_pos_of_mem (List.mem_filter.mpr ⟨member, isNamed⟩)
    have isNamedToo := (Arg.isNamed_iff named).mpr ((isFor_of_named named).mp isFor)
    rw [List.filter_append, List.filter_cons_of_pos isNamedToo, List.length_append, List.length_cons]
    omega

/-- Of several arguments for the operand the second named one has another before it, or the unnamed one has. -/
theorem exists_overrules {args : List Arg} (several : 1 < (parameter.arguments args).length) :
    ∃ before a after, args = before ++ a :: after ∧ parameter.IsFor before a ∧ parameter.Overrules before a after := by
  rw [arguments, List.length_append] at several
  cases second : (args.filter (·.isNamed parameter.names))[1]? with
  | some a =>
    obtain ⟨before, after, written, counted, isNamed⟩ := exists_split_of_getElem?_filter second
    obtain ⟨name, named, isName⟩ := Arg.exists_name_of_isNamed isNamed
    obtain ⟨b, member, bNamed⟩ := List.countP_pos_iff.mp (Nat.lt_of_lt_of_eq Nat.zero_lt_one counted.symm)
    exact ⟨before, a, after, written, (isFor_of_named named).mpr isName,
      (overrules_of_named named).mpr ⟨b, member, bNamed⟩⟩
  | none =>
    have few := List.getElem?_eq_none_iff.mp second
    cases place : parameter.position.bind fun index => (args.filter (·.name.isNone))[index]? with
    | none =>
      rw [place, Option.toList_none, List.length_nil] at several
      omega
    | some a =>
      rw [place, Option.toList_some, List.length_singleton] at several
      obtain ⟨index, isPlace, found⟩ := Option.bind_eq_some_iff.mp place
      obtain ⟨before, after, written, counted, isNone⟩ := exists_split_of_getElem?_filter found
      have unnamed := Option.isNone_iff_eq_none.mp isNone
      have anyNamed : 0 < (args.filter (·.isNamed parameter.names)).length := by omega
      obtain ⟨b, member⟩ := List.exists_mem_of_length_pos anyNamed
      obtain ⟨isArg, isNamed⟩ := List.mem_filter.mp member
      have other : b ≠ a := by
        rintro rfl
        rw [Arg.isNamed_eq_false unnamed] at isNamed
        cases isNamed
      refine ⟨before, a, after, written, ?_, (overrules_of_unnamed unnamed).mpr ⟨b, ?_, isNamed⟩⟩
      · rw [isFor_of_unnamed unnamed, isPlace, counted]
      · rw [written, List.mem_append, List.mem_cons] at isArg
        rw [List.mem_append]
        exact isArg.imp_right fun isAfter => isAfter.resolve_left other

/-- An operand has several arguments just if one of them goes before another one. -/
theorem exists_overrules_iff (parameter : Parameter) (args : List Arg) :
    (∃ before a after, args = before ++ a :: after ∧ parameter.IsFor before a ∧
      parameter.Overrules before a after) ↔ 1 < (parameter.arguments args).length := by
  refine ⟨?_, exists_overrules⟩
  rintro ⟨before, a, after, rfl, isFor, overrules⟩
  exact one_lt_length_arguments isFor overrules

end Compile.Parameter

/-! ### What arguments are wanted for -/

namespace Call

variable {call : Call} {names : List String} {position : Nat} {a : Arg}

theorem Gives.admits {v : Int} (gives : call.Gives names position v) (found : call.arg? names (some position) = some a) :
    Compile.Wanted.number.Admits a.value := by
  obtain ⟨b, foundToo, isInt⟩ := gives
  cases found.symm.trans foundToo
  exact ⟨v, isInt⟩

theorem GivesOr.admits {usual v : Int} (gives : call.GivesOr usual names position v)
    (found : call.arg? names (some position) = some a) : Compile.Wanted.number.Admits a.value := by
  rcases gives with gives | ⟨absent, _⟩
  · exact gives.admits found
  · cases absent.symm.trans found

theorem GivesColor.admits {color : Pixel} (gives : call.GivesColor names position color)
    (found : call.arg? names (some position) = some a) : Compile.Wanted.text.Admits a.value := by
  obtain ⟨b, foundToo, isColor⟩ := gives
  cases found.symm.trans foundToo
  obtain ⟨text, isText, _⟩ := Option.bind_eq_some_iff.mp isColor
  exact ⟨text, isText⟩

theorem GivesPiece.admits {piece : Compile.Piece} (gives : call.GivesPiece names position piece)
    (found : call.arg? names (some position) = some a) : Compile.Wanted.image.Admits a.value := by
  obtain ⟨b, foundToo, isPiece⟩ := gives
  cases found.symm.trans foundToo
  exact ⟨piece, isPiece⟩

theorem GivesChannels.admits {bits : UInt8} (gives : call.GivesChannels bits)
    (found : call.arg? ["channels"] (some 0) = some a) : Compile.Wanted.text.Admits a.value := by
  rw [GivesChannels, found] at gives
  obtain ⟨text, isText, _⟩ := gives
  exact ⟨text, isText⟩

theorem GivesAxis.admits {axis : String} (gives : call.GivesAxis axis) (found : call.arg? ["axis"] none = some a) :
    Compile.Wanted.text.Admits a.value := by
  rw [GivesAxis, found] at gives
  exact ⟨axis, gives⟩

theorem GivesFrames.admits {shift : Nat} {params : Bytecode.AnimParams} (gives : call.GivesFrames shift params)
    {parameter : Parameter} (member : parameter ∈ Compile.frameParameters shift)
    (found : call.arg? parameter.names parameter.position = some a) : parameter.wanted.Admits a.value := by
  obtain ⟨width, height, frames, ⟨_, rate, _⟩, _, _, smooth, axis, _⟩ := gives
  simp only [Compile.frameParameters, List.mem_cons, List.not_mem_nil, or_false] at member
  rcases member with rfl | rfl | rfl | rfl | rfl | rfl
  · exact width.admits found
  · exact height.admits found
  · exact frames.admits found
  · exact rate.admits found
  · exact smooth.admits found
  · exact axis.admits found

/-- What is looked up for an operand of a stage is what is wanted there. -/
theorem Denotes.admits {i : Bytecode.Instr Compile.Piece} (denotes : call.Denotes i) {parameter : Parameter}
    (member : parameter ∈ Compile.stageParameters call.name)
    (found : call.arg? parameter.names parameter.position = some a) : parameter.wanted.Admits a.value := by
  cases i with
  | texture s | fill w h c | sheet s p | combine w h insets => exact denotes.elim
  | overlay s | mask s =>
    obtain ⟨name, image⟩ := denotes
    rw [name, Compile.stageParameters, List.mem_singleton] at member
    cases member
    exact image.admits found
  | lowPart percent s =>
    obtain ⟨name, image, _, number, _⟩ := denotes
    rw [name, Compile.stageParameters, List.mem_pair] at member
    rcases member with rfl | rfl
    · exact number.admits found
    · exact image.admits found
  | resize w h =>
    obtain ⟨name, width, height⟩ := denotes
    rw [name, Compile.stageParameters, List.mem_pair] at member
    rcases member with rfl | rfl
    · exact width.admits found
    · exact height.admits found
  | transform mode =>
    obtain ⟨name, _, number, _⟩ := denotes
    rw [name, Compile.stageParameters, List.mem_singleton] at member
    cases member
    exact number.admits found
  | opacity alpha =>
    obtain ⟨name, _, number, _⟩ := denotes
    rw [name, Compile.stageParameters, List.mem_singleton] at member
    cases member
    exact number.admits found
  | dropAlpha =>
    rcases denotes with name | name
    · rw [name] at member
      cases member
    · rw [name] at member
      cases member
  | keyColor r g b =>
    obtain ⟨name, _, color, _⟩ := denotes
    rw [name, Compile.stageParameters, List.mem_singleton] at member
    cases member
    exact color.admits found
  | invert bits =>
    obtain ⟨name, channels⟩ := denotes
    rw [name, Compile.stageParameters, List.mem_singleton] at member
    cases member
    exact channels.admits found
  | brighten =>
    have name : call.name = "brighten" := denotes
    rw [name] at member
    cases member
  | contrast level brightness =>
    obtain ⟨name, ⟨_, first, _⟩, _, second, _⟩ := denotes
    rw [name, Compile.stageParameters, List.mem_pair] at member
    rcases member with rfl | rfl
    · exact first.admits found
    · exact second.admits found
  | multiply color | screen color =>
    obtain ⟨name, color⟩ := denotes
    rw [name, Compile.stageParameters, List.mem_singleton] at member
    cases member
    exact color.admits found
  | colorize color ratio =>
    obtain ⟨name, color, _, ratio, _⟩ := denotes
    rw [name, Compile.stageParameters, List.mem_pair] at member
    rcases member with rfl | rfl
    · exact color.admits found
    · exact ratio.admits found
  | animate params =>
    obtain ⟨name, frames⟩ := denotes
    rw [name] at member
    exact frames.admits member found

end Call

theorem ListInsets.admits {args : List Arg} {insets : List (Bytecode.Inset Compile.Piece)} (lists : ListInsets args insets) :
    ∀ {index : Nat} {a : Arg}, args[index]? = some a →
      (if index % 3 = 2 then Compile.Wanted.image else .number).Admits a.value := by
  induction args, insets using ListInsets.induct with
  | case1 =>
    intro index a found
    cases found
  | case2 x y source rest inset insets ih =>
    obtain ⟨column, row, isPiece, others⟩ := lists
    intro index a found
    rcases index with _ | _ | _ | index
    · cases found
      exact ⟨_, column⟩
    · cases found
      exact ⟨_, row⟩
    · cases found
      exact ⟨_, isPiece⟩
    · rw [Nat.add_assoc, Nat.add_assoc, Nat.add_mod_right]
      exact ih others found
  | case3 args insets nothing short =>
    unfold ListInsets at lists
    split at lists
    · exact absurd rfl (nothing rfl)
    · exact absurd rfl (short _ _ _ _ _ _ rfl)
    · exact lists.elim

namespace Compile

open Bytecode (Instr)

section

variable {room : Nat} {call other : Call} {i : Instr Piece} {before after : List Arg} {a : Arg}

theorem unnamed_of_canvas (success : baseInstr room (.canvas call) = .ok i) : ∀ a ∈ call.args, a.name = none := by
  rw [baseInstr, canvasInstr] at success
  split at success
  · cases success
  · next noneNamed =>
    intro a member
    have unnamed := List.find?_eq_none.mp noneNamed a member
    rwa [Bool.not_eq_true, Option.isSome_eq_false_iff, Option.isNone_iff_eq_none] at unnamed

theorem arg?_of_unnamed (unnamed : ∀ a ∈ call.args, a.name = none) (index : Nat) :
    call.arg? [] (some index) = call.args[index]? := by
  have noneNamed : call.args.find? (Arg.isNamed []) = none :=
    List.find?_eq_none.mpr fun a member isNamed => by
      rw [Arg.isNamed_eq_false (unnamed a member)] at isNamed
      cases isNamed
  have all : call.args.filter (·.name.isNone) = call.args :=
    List.filter_eq_self.mpr fun a member => by rw [unnamed a member, Option.isNone_none]
  rw [Call.arg?, noneNamed, all]
  rfl

/-- What is looked up for an operand is what is wanted there. -/
theorem Role.admits {role : Role} (success : role.instr room call = .ok i) {parameter : Parameter}
    (member : parameter ∈ role.parameters call) (found : call.arg? parameter.names parameter.position = some a) :
    parameter.wanted.Admits a.value := by
  cases role with
  | stage => exact (denotes_of_stageInstr success).admits member found
  | sheet =>
    have denotes : (Base.sheet call).Denotes i := denotes_of_baseInstr success
    cases i with
    | sheet s params =>
      obtain ⟨image, frames⟩ := denotes
      rcases List.mem_cons.mp member with rfl | member
      · exact image.admits found
      · exact frames.admits member found
    | _ => exact denotes.elim
  | canvas =>
    have denotes : (Base.canvas call).Denotes i := denotes_of_baseInstr success
    cases i with
    | combine w h insets =>
      obtain ⟨width, height, rest, written, isWidth, isHeight, lists⟩ := denotes
      obtain ⟨index, _, rfl⟩ := List.mem_map.mp member
      rw [arg?_of_unnamed (unnamed_of_canvas success), written] at found
      rcases index with _ | _ | index
      · cases found
        exact ⟨_, isWidth⟩
      · cases found
        exact ⟨_, isHeight⟩
      · have admits := lists.admits found
        have same : (index + 1 + 1) % 3 = 1 ∧ 1 < index + 1 + 1 ↔ index % 3 = 2 := by omega
        simpa only [same] using admits
    | _ => exact denotes.elim

/-! ### Each argument is for one operand -/

/-- The places of the operands that have one. -/
def places (parameters : List Parameter) : List Nat := parameters.filterMap (·.position)

/-- No name and no place belongs to two operands, and the places are the first ones. -/
structure Tidy (parameters : List Parameter) : Prop where
  names : (parameters.flatMap (·.names)).Nodup
  places : places parameters = List.range (places parameters).length

theorem tidy_stageParameters (name : String) : Tidy (stageParameters name) := by
  unfold stageParameters
  constructor
  · split <;> decide
  · split <;> rfl

theorem Role.tidy (role : Role) (call : Call) : Tidy (role.parameters call) := by
  cases role with
  | stage => exact tidy_stageParameters call.name
  | sheet =>
    have names : ((Role.sheet.parameters call).flatMap (·.names)) = "tex" :: animationNames := rfl
    exact ⟨by rw [names]; decide, rfl⟩
  | canvas =>
    have noNames : ((Role.canvas.parameters call).flatMap (·.names)) = [] := by
      simp [Role.parameters]
    have all : Compile.places (Role.canvas.parameters call) = List.range call.args.length := by
      rw [Compile.places, Role.parameters, List.filterMap_map]
      exact List.filterMap_some
    exact ⟨by rw [noNames]; exact List.nodup_nil, by rw [all, List.length_range]⟩

/-- The stages with an image operand. -/
theorem eq_of_mem_stageParameters {name : String} : ∀ parameter ∈ stageParameters name, parameter.wanted = .image →
    parameter = ⟨["tex", "src"], some 0, .image⟩ ∧ (name = "overlay" ∨ name = "mask") ∨
      parameter = ⟨["tex", "src"], some 1, .image⟩ ∧ name = "lowpart" := by
  unfold stageParameters
  split
  case h_14 => exact fun parameter member => nomatch member
  all_goals decide

theorem eq_of_image_stageParameters {name : String} : ∀ first ∈ stageParameters name, ∀ second ∈ stageParameters name,
    first.wanted = .image → second.wanted = .image → first = second := by
  unfold stageParameters
  split
  case h_14 => exact fun first member => nomatch member
  all_goals decide

theorem wanted_of_mem_frameParameters {shift : Nat} {parameter : Parameter}
    (member : parameter ∈ frameParameters shift) : parameter.wanted ≠ .image := by
  simp only [frameParameters, List.mem_cons, List.not_mem_nil, or_false] at member
  rcases member with rfl | rfl | rfl | rfl | rfl | rfl <;> exact fun same => nomatch same

/-- An argument is for one operand at most. -/
theorem Tidy.eq_of_isFor {parameters : List Parameter} (tidy : Tidy parameters) {first second : Parameter}
    (firstMember : first ∈ parameters) (secondMember : second ∈ parameters) (firstIs : first.IsFor before a)
    (secondIs : second.IsFor before a) : first = second := by
  obtain unnamed | ⟨name, named⟩ := Option.eq_none_or_eq_some a.name
  · rw [Parameter.isFor_of_unnamed unnamed] at firstIs secondIs
    have once : (Compile.places parameters).Nodup := tidy.places ▸ List.nodup_range
    rcases eq_or_of_pairwise (List.pairwise_filterMap.mp once) firstMember secondMember with same | apart | apart
    · exact same
    · exact absurd rfl (apart _ firstIs _ secondIs)
    · exact absurd rfl (apart _ secondIs _ firstIs)
  · rw [Parameter.isFor_of_named named] at firstIs secondIs
    rcases eq_or_of_pairwise (List.nodup_flatMap.mp tidy.names).2 firstMember secondMember with same | apart | apart
    · exact same
    · exact absurd secondIs (apart firstIs)
    · exact absurd firstIs (apart secondIs)

theorem allowed_of_checkArgs_go {names : List String} {unnamed seen : Nat}
    (success : checkArgs.go call names unnamed seen (before ++ a :: after) = .ok ()) :
    match a.name with
    | some name => name ∈ names
    | none => seen + before.countP (·.name.isNone) < unnamed := by
  induction before generalizing seen with
  | nil =>
    rw [List.nil_append, checkArgs.go] at success
    cases named : a.name with
    | some name =>
      rw [named] at success
      by_cases known : names.contains name = true
      · exact List.contains_iff_mem.mp known
      · cases (if_neg known).symm.trans success
    | none =>
      rw [named] at success
      by_cases below : seen < unnamed
      · exact below
      · cases (if_neg below).symm.trans success
  | cons first before ih =>
    rw [List.cons_append, checkArgs.go] at success
    cases named : first.name with
    | some name =>
      rw [named] at success
      by_cases known : names.contains name = true
      · have later := ih ((if_pos known).symm.trans success)
        rwa [List.countP_cons_of_neg (by rw [named]; exact Bool.false_ne_true)]
      · cases (if_neg known).symm.trans success
    | none =>
      rw [named] at success
      by_cases below : seen < unnamed
      · have later := ih ((if_pos below).symm.trans success)
        rwa [List.countP_cons_of_pos (by rw [named]; rfl), ← Nat.add_assoc, Nat.add_right_comm]
      · cases (if_neg below).symm.trans success

/-- The check of the arguments lets through known names, and only as many unnamed arguments as are allowed. -/
theorem allowed_of_checkArgs {names : List String} {unnamed : Nat} (success : checkArgs call names unnamed = .ok ())
    (written : call.args = before ++ a :: after) :
    match a.name with
    | some name => name ∈ names
    | none => before.countP (·.name.isNone) < unnamed := by
  rw [checkArgs, written] at success
  have allowed := allowed_of_checkArgs_go success
  rwa [Nat.zero_add] at allowed

/-- A stage is checked against the names and places of its operands. -/
theorem checked_of_stageInstr (success : stageInstr room call = .ok i) :
    checkArgs call ((stageParameters call.name).flatMap (·.names)) (places (stageParameters call.name)).length =
      .ok () := by
  unfold stageInstr at success
  split at success
  case h_17 => cases success
  case h_1 name | h_2 name | h_3 name | h_4 name | h_5 name | h_6 name | h_7 name | h_8 name | h_9 name | h_10 name
  | h_11 name | h_12 name | h_13 name | h_14 name | h_15 name | h_16 name =>
    obtain ⟨_, checked, _⟩ := exists_of_bind_eq_ok success
    rw [name]
    exact checked

theorem exists_isFor_of_checkArgs {parameters : List Parameter} (tidy : Tidy parameters)
    (checked : checkArgs call (parameters.flatMap (·.names)) (places parameters).length = .ok ())
    (written : call.args = before ++ a :: after) : ∃ parameter ∈ parameters, parameter.IsFor before a := by
  have allowed := allowed_of_checkArgs checked written
  obtain unnamed | ⟨name, named⟩ := Option.eq_none_or_eq_some a.name
  · rw [unnamed] at allowed
    have isPlace := List.mem_range.mpr allowed
    rw [← tidy.places] at isPlace
    obtain ⟨parameter, member, position⟩ := List.mem_filterMap.mp isPlace
    exact ⟨parameter, member, (Parameter.isFor_of_unnamed unnamed).mpr position⟩
  · rw [named] at allowed
    obtain ⟨parameter, member, isName⟩ := List.mem_flatMap.mp allowed
    exact ⟨parameter, member, (Parameter.isFor_of_named named).mpr isName⟩

/-- In a call that is accepted, each argument is for an operand. -/
theorem Role.exists_isFor {role : Role} (success : role.instr room call = .ok i)
    (written : call.args = before ++ a :: after) : ∃ parameter ∈ role.parameters call, parameter.IsFor before a := by
  cases role with
  | stage => exact exists_isFor_of_checkArgs (tidy_stageParameters call.name) (checked_of_stageInstr success) written
  | sheet =>
    obtain ⟨_, checked, _⟩ := exists_of_bind_eq_ok success
    exact exists_isFor_of_checkArgs (Role.sheet.tidy call) checked written
  | canvas =>
    have unnamed := unnamed_of_canvas success
    rw [written] at unnamed
    have all := countP_unnamed fun b member => unnamed b (List.mem_append_left _ member)
    refine ⟨_, List.mem_map.mpr ⟨before.length, ?_, rfl⟩, ?_⟩
    · rw [written, List.mem_range, List.length_append, List.length_cons]
      omega
    · rw [Parameter.isFor_of_unnamed (unnamed a (List.mem_append_right _ List.mem_cons_self)), all]

end

end Compile

end TextureLoom
