import TextureLoom.Proofs.Compile.Mentioning
import TextureLoom.Proofs.Compile.Overruling

set_option autoImplicit false

namespace TextureLoom

open Compile (Parameter Piece Role)

/-! ### Arguments that are taken -/

theorem mem_splits {α : Type} {l : List α} : ∀ {front before : List α} {a : α} {after : List α},
    (before, a, after) ∈ splits front l ↔ ∃ middle, before = front ++ middle ∧ l = middle ++ a :: after := by
  induction l with
  | nil =>
    intro front before a after
    constructor
    · exact fun member => nomatch member
    · rintro ⟨middle, _, written⟩
      cases middle <;> cases written
  | cons first rest ih =>
    intro front before a after
    rw [splits, List.mem_cons, ih]
    constructor
    · rintro (same | ⟨middle, rfl, rfl⟩)
      · cases same
        exact ⟨[], (List.append_nil _).symm, rfl⟩
      · exact ⟨first :: middle, List.append_assoc .., rfl⟩
    · rintro ⟨middle, rfl, written⟩
      cases middle with
      | nil =>
        cases written
        rw [List.append_nil]
        exact .inl rfl
      | cons other middle =>
        cases written
        exact .inr ⟨middle, List.append_cons .., rfl⟩

/-- Of two places in a list, one is behind the other. -/
theorem pairwise_splits {α : Type} (l : List α) : ∀ front : List α, (splits front l).Pairwise fun s t =>
    ∃ middle, t.1 = s.1 ++ s.2.1 :: middle ∧ s.2.2 = middle ++ t.2.1 :: t.2.2 := by
  induction l with
  | nil => exact fun _ => .nil
  | cons a rest ih =>
    intro front
    refine List.pairwise_cons.mpr ⟨?_, ih (front ++ [a])⟩
    rintro ⟨before, b, after⟩ member
    obtain ⟨middle, rfl, rfl⟩ := mem_splits.mp member
    exact ⟨middle, List.append_assoc .., rfl⟩

namespace Compile.Parameter

variable {parameter : Parameter} {before middle after : List Arg} {a b : Arg}

/-- Of two arguments for an operand one goes before the other. -/
theorem overrules_of_isFor (first : parameter.IsFor before a)
    (second : parameter.IsFor (before ++ a :: middle) b) :
    parameter.Overrules before a (middle ++ b :: after) ∨ parameter.Overrules (before ++ a :: middle) b after := by
  obtain unnamed | ⟨name, named⟩ := Option.eq_none_or_eq_some a.name
  · rw [isFor_of_unnamed unnamed] at first
    obtain alsoUnnamed | ⟨name, named⟩ := Option.eq_none_or_eq_some b.name
    · rw [isFor_of_unnamed alsoUnnamed] at second
      have counted := Option.some.inj (first.symm.trans second)
      have later : 0 < (a :: middle).countP (·.name.isNone) :=
        List.countP_pos_iff.mpr ⟨a, List.mem_cons_self, by rw [unnamed, Option.isNone_none]⟩
      rw [List.countP_append] at counted
      omega
    · have isNamed : b.isNamed parameter.names := (Arg.isNamed_iff named).mpr ((isFor_of_named named).mp second)
      exact .inl ((overrules_of_unnamed unnamed).mpr
        ⟨b, List.mem_append_right _ (List.mem_append_right _ List.mem_cons_self), isNamed⟩)
  · have isNamed : a.isNamed parameter.names := (Arg.isNamed_iff named).mpr ((isFor_of_named named).mp first)
    have inFront : a ∈ before ++ a :: middle := List.mem_append_right _ List.mem_cons_self
    refine .inr ?_
    obtain unnamed | ⟨name, named⟩ := Option.eq_none_or_eq_some b.name
    · exact (overrules_of_unnamed unnamed).mpr ⟨a, List.mem_append_left _ inFront, isNamed⟩
    · exact (overrules_of_named named).mpr ⟨a, inFront, isNamed⟩

end Compile.Parameter

/-- At most one member of a list is picked if no two members are. -/
theorem filter_eq_singleton {α : Type} {p : α → Bool} {l : List α} {a : α} (apart : l.Pairwise fun b c => ¬(p b ∧ p c))
    (member : a ∈ l) (picked : p a) : l.filter p = [a] := by
  obtain ⟨before, after, rfl⟩ := List.append_of_mem member
  obtain ⟨_, behind, cross⟩ := List.pairwise_append.mp apart
  have noneBefore : before.filter p = [] :=
    List.filter_eq_nil_iff.mpr fun b isBefore isPicked => cross b isBefore a List.mem_cons_self ⟨isPicked, picked⟩
  have noneAfter : after.filter p = [] :=
    List.filter_eq_nil_iff.mpr fun b isAfter isPicked => (List.pairwise_cons.mp behind).1 b isAfter ⟨picked, isPicked⟩
  rw [List.filter_append, List.filter_cons_of_pos picked, noneBefore, noneAfter, List.nil_append]

/-- The arguments of a call that are taken for images. -/
def Compile.Role.taken (role : Role) (call : Call) : List Arg :=
  ((splits [] call.args).filter fun s => Use.of (role.parameters call) s = .taken).map (·.2.1)

namespace Compile.Role

open Bytecode (Instr)

variable {role : Role} {room : Nat} {call : Call} {i : Instr Piece} {parameter : Parameter} {a : Arg}

theorem use_eq_taken_iff (s : List Arg × Arg × List Arg) : Use.of (role.parameters call) s = .taken ↔
    ∃ parameter ∈ role.parameters call, parameter.wanted = .image ∧ parameter.IsFor s.1 s.2.1 ∧
      ¬parameter.Overrules s.1 s.2.1 s.2.2 := by
  obtain ⟨before, a, after⟩ := s
  rw [Use.of]
  split
  case h_1 parameter found =>
    have member := List.mem_of_find?_eq_some found
    have holds := List.find?_some found
    rw [decide_eq_true_eq] at holds
    by_cases overrules : parameter.Overrules before a after
    · rw [if_pos overrules]
      refine iff_of_false (fun taken => by cases taken) ?_
      rintro ⟨other, isOther, _, isFor, first⟩
      cases (role.tidy call).eq_of_isFor member isOther holds.2 isFor
      exact first overrules
    · rw [if_neg overrules]
      exact iff_of_true rfl ⟨parameter, member, holds.1, holds.2, overrules⟩
  case h_2 absent =>
    refine iff_of_false (fun taken => by split at taken <;> cases taken) ?_
    rintro ⟨parameter, member, wanted, isFor, _⟩
    exact List.find?_eq_none.mp absent parameter member (decide_eq_true ⟨wanted, isFor⟩)

theorem mem_taken : a ∈ role.taken call ↔ ∃ before after, call.args = before ++ a :: after ∧
    ∃ parameter ∈ role.parameters call, parameter.wanted = .image ∧ parameter.IsFor before a ∧
      ¬parameter.Overrules before a after := by
  constructor
  · intro taken
    obtain ⟨⟨before, a, after⟩, member, rfl⟩ := List.mem_map.mp taken
    obtain ⟨isSplit, isTaken⟩ := List.mem_filter.mp member
    obtain ⟨middle, rfl, written⟩ := mem_splits.mp isSplit
    exact ⟨before, after, written, (use_eq_taken_iff _).mp (of_decide_eq_true isTaken)⟩
  · rintro ⟨before, after, written, isTaken⟩
    have isSplit : (before, a, after) ∈ splits [] call.args := mem_splits.mpr ⟨before, rfl, written⟩
    exact List.mem_map.mpr ⟨_, List.mem_filter.mpr ⟨isSplit, decide_eq_true ((use_eq_taken_iff _).mpr isTaken)⟩, rfl⟩

/-- What is taken is looked up for an image. -/
theorem exists_parameter_of_taken (taken : a ∈ role.taken call) : ∃ parameter ∈ role.parameters call,
    parameter.wanted = .image ∧ call.arg? parameter.names parameter.position = some a := by
  obtain ⟨before, after, written, parameter, member, wanted, isFor, first⟩ := mem_taken.mp taken
  exact ⟨parameter, member, wanted, Parameter.arg?_eq_some written isFor first⟩

/-- Where one operand is an image, what is looked up for it is taken, and nothing else. -/
theorem taken_eq (member : parameter ∈ role.parameters call) (wanted : parameter.wanted = .image)
    (only : ∀ other ∈ role.parameters call, other.wanted = .image → other = parameter) :
    role.taken call = (call.arg? parameter.names parameter.position).toList := by
  cases found : call.arg? parameter.names parameter.position with
  | none =>
    refine List.eq_nil_iff_forall_not_mem.mpr fun a taken => ?_
    obtain ⟨other, isOther, otherWanted, foundToo⟩ := exists_parameter_of_taken taken
    cases only other isOther otherWanted
    cases found.symm.trans foundToo
  | some a =>
    obtain ⟨before, after, written, isFor, first⟩ := Parameter.exists_split_of_arg? found
    have isSplit : (before, a, after) ∈ splits [] call.args := mem_splits.mpr ⟨before, rfl, written⟩
    have isTaken : decide (Use.of (role.parameters call) (before, a, after) = .taken) = true :=
      decide_eq_true ((use_eq_taken_iff _).mpr ⟨parameter, member, wanted, isFor, first⟩)
    have apart : (splits [] call.args).Pairwise fun s t =>
        ¬(decide (Use.of (role.parameters call) s = .taken) = true ∧
          decide (Use.of (role.parameters call) t = .taken) = true) := by
      refine (pairwise_splits call.args []).imp ?_
      rintro s t ⟨middle, front, behind⟩ ⟨sTaken, tTaken⟩
      obtain ⟨p, isP, pWanted, sIs, sFirst⟩ := (use_eq_taken_iff s).mp (of_decide_eq_true sTaken)
      obtain ⟨q, isQ, qWanted, tIs, tFirst⟩ := (use_eq_taken_iff t).mp (of_decide_eq_true tTaken)
      cases only p isP pWanted
      cases only q isQ qWanted
      rw [front] at tIs tFirst
      rw [behind] at sFirst
      exact (Parameter.overrules_of_isFor sIs tIs).elim sFirst tFirst
    rw [taken, filter_eq_singleton apart isSplit isTaken]
    rfl

theorem filterMap_toList {α β : Type} (o : Option α) (f : α → Option β) : o.toList.filterMap f = (o.bind f).toList := by
  cases o with
  | none => rfl
  | some a =>
    rw [Option.toList_some, List.filterMap_cons, List.filterMap_nil, Option.bind_some]
    cases f a <;> rfl

theorem filterMap_taken_stage (call : Call) :
    (Role.stage.taken call).filterMap (fun a => a.value.piece?) = call.pieces := by
  by_cases anyImage : ∃ parameter ∈ stageParameters call.name, parameter.wanted = .image
  · obtain ⟨parameter, member, wanted⟩ := anyImage
    have only : ∀ other ∈ stageParameters call.name, other.wanted = .image → other = parameter :=
      fun other isOther otherWanted => eq_of_image_stageParameters other isOther parameter member otherWanted wanted
    have looked : Role.stage.taken call = (call.arg? parameter.names parameter.position).toList :=
      taken_eq member wanted only
    have pieces : call.pieces =
        ((call.arg? parameter.names parameter.position).bind fun a => a.value.piece?).toList := by
      rcases eq_of_mem_stageParameters parameter member wanted with ⟨rfl, named | named⟩ | ⟨rfl, named⟩
      all_goals
        rw [Call.pieces, named]
        rfl
    rw [looked, pieces, filterMap_toList]
  · have nothing : Role.stage.taken call = [] := by
      refine List.eq_nil_iff_forall_not_mem.mpr fun a taken => ?_
      obtain ⟨parameter, member, wanted, _⟩ := exists_parameter_of_taken taken
      exact anyImage ⟨parameter, member, wanted⟩
    rw [nothing, List.filterMap_nil, Call.pieces]
    split
    case h_1 named | h_2 named | h_3 named => exact absurd (by rw [named]; decide) anyImage
    case h_4 => rfl

theorem filterMap_taken_sheet (call : Call) :
    (Role.sheet.taken call).filterMap (fun a => a.value.piece?) = (Base.sheet call).pieces := by
  have looked : Role.sheet.taken call = (call.arg? ["tex"] (some 0)).toList := by
    have image : ⟨["tex"], some 0, .image⟩ ∈ Role.sheet.parameters call := List.mem_cons_self
    refine taken_eq image rfl fun other member wanted => ?_
    rcases List.mem_cons.mp member with rfl | member
    · rfl
    · exact absurd wanted (wanted_of_mem_frameParameters member)
  rw [looked, Base.pieces, filterMap_toList]

/-- Of the arguments behind a canvas size, each third one. -/
theorem filter_splits_eq_thirds (args : List Arg) : ∀ front : List Arg, front.length % 3 = 2 →
    ((splits front args).filter fun s => s.1.length % 3 = 1 ∧ 1 < s.1.length).map (·.2.1) = Base.thirds args := by
  induction args using Base.thirds.induct with
  | case1 x y source rest ih =>
    intro front third
    have later := ih (front ++ [x] ++ [y] ++ [source]) (by simp; omega)
    rw [splits, List.filter_cons_of_neg (by simp; omega), splits, List.filter_cons_of_neg (by simp; omega), splits,
      List.filter_cons_of_pos (by simp; omega), List.map_cons, later, Base.thirds]
  | case2 args short =>
    intro front third
    rcases args with _ | ⟨x, _ | ⟨y, _ | ⟨source, rest⟩⟩⟩
    · rfl
    · rw [splits, List.filter_cons_of_neg (by simp; omega)]
      rfl
    · rw [splits, List.filter_cons_of_neg (by simp; omega), splits, List.filter_cons_of_neg (by simp; omega)]
      rfl
    · exact absurd rfl (short x y source rest)

theorem of_canvas_eq_taken_iff (unnamed : ∀ a ∈ call.args, a.name = none) {s : List Arg × Arg × List Arg}
    (isSplit : s ∈ splits [] call.args) :
    Use.of (Role.canvas.parameters call) s = .taken ↔ s.1.length % 3 = 1 ∧ 1 < s.1.length := by
  obtain ⟨before, a, after⟩ := s
  obtain ⟨middle, rfl, written⟩ := mem_splits.mp isSplit
  rw [written] at unnamed
  have counted := countP_unnamed fun b member => unnamed b (List.mem_append_left _ member)
  have aUnnamed := unnamed a (List.mem_append_right _ List.mem_cons_self)
  rw [use_eq_taken_iff]
  constructor
  · rintro ⟨parameter, member, wanted, isFor, _⟩
    rw [Parameter.isFor_of_unnamed aUnnamed, counted] at isFor
    obtain ⟨index, _, rfl⟩ := List.mem_map.mp member
    cases isFor
    by_contra other
    rw [if_neg other] at wanted
    cases wanted
  · intro third
    have inside : before.length < call.args.length := by
      rw [written, List.length_append, List.length_cons]
      omega
    refine ⟨_, List.mem_map.mpr ⟨before.length, List.mem_range.mpr inside, rfl⟩, if_pos third, ?_,
      Parameter.not_overrules_of_nameless aUnnamed rfl⟩
    rw [Parameter.isFor_of_unnamed aUnnamed, counted]

theorem filterMap_taken_canvas (unnamed : ∀ a ∈ call.args, a.name = none) :
    (Role.canvas.taken call).filterMap (fun a => a.value.piece?) = (Base.canvas call).pieces := by
  have thirds : Role.canvas.taken call = Base.thirds (call.args.drop 2) := by
    have same : (splits [] call.args).filter (fun s => Use.of (Role.canvas.parameters call) s = .taken) =
        (splits [] call.args).filter fun s => s.1.length % 3 = 1 ∧ 1 < s.1.length :=
      List.filter_congr fun s isSplit => decide_eq_decide.mpr (of_canvas_eq_taken_iff unnamed isSplit)
    rw [Role.taken, same]
    rcases call.args with _ | ⟨width, _ | ⟨height, rest⟩⟩
    · rfl
    · rfl
    · rw [splits, List.filter_cons_of_neg (by simp), splits, List.filter_cons_of_neg (by simp)]
      exact filter_splits_eq_thirds rest _ rfl
  rw [thirds, Base.pieces]

/-- The images of a call that is accepted are those in the arguments that are taken. -/
theorem filterMap_taken (success : role.instr room call = .ok i) :
    (role.taken call).filterMap (fun a => a.value.piece?) = role.pieces call := by
  cases role with
  | stage => exact filterMap_taken_stage call
  | sheet => exact filterMap_taken_sheet call
  | canvas => exact filterMap_taken_canvas (unnamed_of_canvas success)

end Compile.Role

/-! ### Names at a depth -/

/-- The names among some mentions that are taken at a depth. -/
def namesAt (depth : Nat) (mentions : List Mention) : List String :=
  (mentions.filter fun m => m.taken ∧ m.depth = depth).map (·.name)

/-- The names that an image is at a depth below its own. -/
def Compile.Piece.namesAt : Nat → Piece → List String
  | 0, .name text => [text]
  | depth + 1, .nested p => TextureLoom.namesAt depth p.mentions
  | _, _ => []

section

variable {depth : Nat}

theorem namesAt_append (first second : List Mention) :
    namesAt depth (first ++ second) = namesAt depth first ++ namesAt depth second := by
  rw [namesAt, List.filter_append, List.map_append]
  rfl

theorem namesAt_flatMap {α : Type} (l : List α) (f : α → List Mention) :
    namesAt depth (l.flatMap f) = l.flatMap fun a => namesAt depth (f a) := by
  induction l with
  | nil => rfl
  | cons first rest ih => rw [List.flatMap_cons, namesAt_append, ih, List.flatMap_cons]

theorem namesAt_ignored (mentions : List Mention) : namesAt depth (mentions.map Mention.ignored) = [] := by
  have nothing : (mentions.map Mention.ignored).filter (fun m => m.taken ∧ m.depth = depth) = [] := by
    refine List.filter_eq_nil_iff.mpr fun m member => ?_
    obtain ⟨m, _, rfl⟩ := List.mem_map.mp member
    simp [Mention.ignored]
  rw [namesAt, nothing, List.map_nil]

theorem namesAt_zero_deeper (mentions : List Mention) : namesAt 0 (mentions.map Mention.deeper) = [] := by
  have nothing : (mentions.map Mention.deeper).filter (fun m => m.taken ∧ m.depth = 0) = [] := by
    refine List.filter_eq_nil_iff.mpr fun m member => ?_
    obtain ⟨m, _, rfl⟩ := List.mem_map.mp member
    simp [Mention.deeper]
  rw [namesAt, nothing, List.map_nil]

theorem namesAt_succ_deeper (mentions : List Mention) :
    namesAt (depth + 1) (mentions.map Mention.deeper) = namesAt depth mentions := by
  rw [namesAt, namesAt, List.filter_map, List.map_map]
  simp [Function.comp_def, Mention.deeper]

/-- The names in a value that is an image. -/
theorem Value.namesAt_mentions {v : Value} {piece : Piece} (isPiece : v.piece? = some piece) (offset : Nat) :
    namesAt depth (v.mentions offset) = piece.namesAt depth := by
  unfold Value.piece? at isPiece
  split at isPiece
  case h_1 name | h_2 name =>
    cases isPiece
    rw [Value.mentions]
    cases depth <;> rfl
  case h_3 name written =>
    cases isPiece
    have only : (Value.nested ⟨.texture name written, []⟩).mentions offset = [⟨name, 0, written, true⟩] := by
      rw [Value.mentions, Pipeline.mentions_eq, Base.mentions]
      rfl
    rw [only]
    cases depth <;> rfl
  case h_4 p bare =>
    cases isPiece
    have isNested : (Value.nested p).nested?.isSome := by
      rw [Value.nested?, Value.piece?]
      · rfl
      · exact bare
    rw [Value.mentions, if_pos isNested]
    cases depth with
    | zero => exact namesAt_zero_deeper p.mentions
    | succ depth => exact namesAt_succ_deeper p.mentions
  case h_5 => cases isPiece

theorem namesAt_keepAll (parameters : List Parameter) (f : Arg → List Mention) (args : List Arg) :
    ∀ front : List Arg, namesAt depth (Use.keepAll ((splits front args).map (Use.of parameters)) (args.map f)) =
      (((splits front args).filter fun s => Use.of parameters s = .taken).map (·.2.1)).flatMap
        fun a => namesAt depth (f a) := by
  induction args with
  | nil => exact fun _ => rfl
  | cons a rest ih =>
    intro front
    have later := ih (front ++ [a])
    rw [Use.keepAll] at later ⊢
    rw [splits, List.map_cons, List.map_cons, List.zipWith_cons_cons, List.flatten_cons, namesAt_append, later]
    cases use : Use.of parameters (front, a, rest) with
    | taken => rw [List.filter_cons, if_pos (decide_eq_true use), List.map_cons, List.flatMap_cons, Use.keep]
    | ignored =>
      rw [List.filter_cons, if_neg (by rw [use]; decide), Use.keep, namesAt_ignored, List.nil_append]
    | other =>
      rw [List.filter_cons, if_neg (by rw [use]; decide), Use.keep]
      rfl

namespace Compile

variable {room : Nat} {role : Role} {call : Call} {i : Bytecode.Instr Piece}

/-- The names in a call that is accepted. -/
theorem Role.namesAt_mentions (success : role.instr room call = .ok i) :
    namesAt depth (role.mentions call) = (role.pieces call).flatMap (Piece.namesAt depth) := by
  have each : ∀ a ∈ role.taken call, namesAt depth (a.value.mentions a.offset) =
      a.value.piece?.toList.flatMap (Piece.namesAt depth) := by
    intro a taken
    obtain ⟨parameter, member, wanted, found⟩ := exists_parameter_of_taken taken
    have admits := Role.admits success member found
    rw [wanted] at admits
    obtain ⟨piece, isPiece⟩ := admits
    rw [Value.namesAt_mentions isPiece, isPiece, Option.toList_some, List.flatMap_singleton]
  rw [Role.mentions, Role.uses, namesAt_keepAll, ← Role.taken, ← filterMap_taken success,
    List.filterMap_eq_flatMap_toList, List.flatMap_assoc]
  exact List.flatMap_congr each

/-- The names in a base image that is accepted. -/
theorem namesAt_mentions_of_baseInstr {base : Base} (success : baseInstr room base = .ok i) :
    namesAt depth base.mentions = base.pieces.flatMap (Piece.namesAt depth) := by
  cases base with
  | texture name offset =>
    rw [Base.mentions, Base.pieces, List.flatMap_singleton]
    cases depth <;> rfl
  | fill width height color offset =>
    rw [Base.mentions]
    rfl
  | sheet call =>
    have accepted : Role.sheet.instr room call = .ok i := success
    rw [Base.mentions_sheet]
    exact Role.namesAt_mentions accepted
  | canvas call =>
    have accepted : Role.canvas.instr room call = .ok i := success
    rw [Base.mentions_canvas]
    exact Role.namesAt_mentions accepted

/-- The names in a pipeline that is compiled. -/
theorem IsReadAs.namesAt_mentions {p : Pipeline} {instrs : List (Bytecode.Instr Piece)} (read : IsReadAs room p instrs) :
    namesAt depth p.mentions = p.pieces.flatMap (Piece.namesAt depth) := by
  obtain ⟨first, rest, isBase, areStages, rfl⟩ := read
  have stages : ∀ call ∈ p.stages, namesAt depth (Role.stage.mentions call) =
      call.pieces.flatMap (Piece.namesAt depth) := by
    intro call isStage
    obtain ⟨i, success⟩ := exists_of_mapM_eq_ok isStage areStages
    have accepted : Role.stage.instr room call = .ok i := success
    exact Role.namesAt_mentions accepted
  rw [Pipeline.mentions_eq, namesAt_append, namesAt_mentions_of_baseInstr isBase, Pipeline.pieces, List.flatMap_append,
    namesAt_flatMap, List.flatMap_assoc, List.flatMap_congr stages]

/-- The names one level down are those of the nested pipelines. -/
theorem IsReadAs.namesAt_succ {p : Pipeline} {instrs : List (Bytecode.Instr Piece)} (read : IsReadAs room p instrs) :
    namesAt (depth + 1) p.mentions = p.nested.flatMap fun q => namesAt depth q.mentions := by
  have each : ∀ piece : Piece, piece.namesAt (depth + 1) =
      piece.nested?.toList.flatMap fun q => namesAt depth q.mentions := by
    intro piece
    cases piece with
    | name text => rfl
    | nested q =>
      rw [Piece.nested?, Option.toList_some, List.flatMap_singleton]
      rfl
  rw [read.namesAt_mentions, Pipeline.nested, List.filterMap_eq_flatMap_toList, List.flatMap_assoc, Pipeline.pieces]
  exact List.flatMap_congr fun piece _ => each piece

end Compile

end

end TextureLoom
