import Mathlib.Data.List.Forall2
import TextureLoom.Proofs.Compile.Drafting

set_option autoImplicit false

namespace TextureLoom

open Bytecode (AnimParams Inset Instr)
open Compile (Piece)

/-- What a value stands for as an image operand: a pipeline that only names a texture counts as the name. -/
def Value.piece? : Value → Option Piece
  | .ident name | .str name => some (.name name)
  | .nested ⟨.texture name _, []⟩ => some (.name name)
  | .nested p => some (.nested p)
  | .int _ => none

/-- The pipeline nested in a value, unless it only names a texture. -/
def Value.nested? (v : Value) : Option Pipeline := v.piece?.bind Piece.nested?

namespace Call

/-- The operand is written as this number. -/
def Gives (call : Call) (names : List String) (position : Nat) (v : Int) : Prop :=
  ∃ a, call.arg? names (some position) = some a ∧ a.value = .int v

/-- The operand is written as this number, or not written and the number is the usual one. -/
def GivesOr (call : Call) (usual : Int) (names : List String) (position : Nat) (v : Int) : Prop :=
  call.Gives names position v ∨ call.arg? names (some position) = none ∧ v = usual

/-- The operand is written as this colour. -/
def GivesColor (call : Call) (names : List String) (position : Nat) (color : Pixel) : Prop :=
  ∃ a, call.arg? names (some position) = some a ∧ a.value.text?.bind Pixel.ofHexText? = some color

/-- The operand is written as this image. -/
def GivesPiece (call : Call) (names : List String) (position : Nat) (piece : Piece) : Prop :=
  ∃ a, call.arg? names (some position) = some a ∧ a.value.piece? = some piece

/-- The channels are written as a text that lists them, or not written and all but alpha. -/
def GivesChannels (call : Call) (bits : UInt8) : Prop :=
  match call.arg? ["channels"] (some 0) with
  | none => bits = 7
  | some a => ∃ listed, a.value.text? = some listed ∧
    bits = Pipeline.channelBits (Pipeline.lists listed 'r') (Pipeline.lists listed 'g') (Pipeline.lists listed 'b')
      (Pipeline.lists listed 'a')

/-- The axis is written as this text, or not written. -/
def GivesAxis (call : Call) (axis : String) : Prop :=
  match call.arg? ["axis"] none with
  | none => axis = ""
  | some a => a.value.text? = some axis

/-- How the frames of a sheet are written; the frame width is the unnamed argument number `shift`. The rate is in
256ths of a frame a second, and zero stands for the usual one. -/
structure GivesFrames (call : Call) (shift : Nat) (params : AnimParams) : Prop where
  width : call.GivesOr 0 ["frame_w", "w"] shift params.frameWidth.toNat
  height : call.GivesOr 0 ["frame_h", "h"] (shift + 1) params.frameHeight.toNat
  frames : call.GivesOr 0 ["frames", "count"] (shift + 2) params.frames.toNat
  rate : ∃ fps, call.GivesOr 0 ["fps"] (shift + 3) fps ∧
    (params.rate.toNat : Int) = if fps = 0 then 2048 else min (fps * 256) 65535
  flags : ∃ smooth axis, call.GivesOr 0 ["smooth"] (shift + 4) smooth ∧ call.GivesAxis axis ∧
    params.flags = (if smooth = 0 then 0 else AnimParams.smoothFlag) ||| Compile.axisFlag axis

/-- The instruction that a stage denotes. -/
def Denotes (call : Call) : Instr Piece → Prop
  | .overlay source => call.name = "overlay" ∧ call.GivesPiece ["tex", "src"] 0 source
  | .mask source => call.name = "mask" ∧ call.GivesPiece ["tex", "src"] 0 source
  | .lowPart percent source => call.name = "lowpart" ∧ call.GivesPiece ["tex", "src"] 1 source ∧
    ∃ v, call.Gives ["percent", "pct"] 0 v ∧ 0 < v ∧ (percent.toNat : Int) = min v 100
  | .resize w h => call.name = "resize" ∧ call.Gives ["w", "width"] 0 w.toNat ∧ call.Gives ["h", "height"] 1 h.toNat
  | .transform mode => call.name = "transform" ∧ ∃ v, call.Gives ["t", "mode"] 0 v ∧ (mode.toNat : Int) = v % 8
  | .opacity alpha => call.name = "opacity" ∧
    ∃ v, call.GivesOr 255 ["a", "alpha", "value"] 0 v ∧ (alpha.toNat : Int) = max 0 (min v 255)
  | .dropAlpha => call.name = "remove_alpha" ∨ call.name = "noalpha"
  | .keyColor r g b => call.name = "make_alpha" ∧ ∃ color, call.GivesColor ["color"] 0 color ∧
    r.toUInt32 = color.red ∧ g.toUInt32 = color.green ∧ b.toUInt32 = color.blue
  | .invert bits => call.name = "invert" ∧ call.GivesChannels bits
  | .brighten => call.name = "brighten"
  | .contrast level brightness => call.name = "contrast" ∧
    (∃ v, call.GivesOr 0 ["value", "contrast"] 0 v ∧ Bytecode.signedOperand level = max (-127) (min v 127)) ∧
    ∃ v, call.GivesOr 0 ["brightness"] 1 v ∧ Bytecode.signedOperand brightness = max (-127) (min v 127)
  | .multiply color => call.name = "multiply" ∧ call.GivesColor ["color"] 0 color
  | .screen color => call.name = "screen" ∧ call.GivesColor ["color"] 0 color
  | .colorize color ratio => call.name = "colorize" ∧ call.GivesColor ["color"] 0 color ∧
    ∃ v, call.GivesOr 255 ["ratio"] 1 v ∧ (ratio.toNat : Int) = max 0 (min v 255)
  | .animate params => call.name = "anim" ∧ call.GivesFrames 0 params
  | .texture _ | .fill .. | .sheet .. | .combine .. => False

/-- The images among the arguments of a stage. -/
def pieces (call : Call) : List Piece :=
  match call.name with
  | "overlay" | "mask" => ((call.arg? ["tex", "src"] (some 0)).bind fun a => a.value.piece?).toList
  | "lowpart" => ((call.arg? ["tex", "src"] (some 1)).bind fun a => a.value.piece?).toList
  | _ => []

end Call

/-- The arguments are the insets in order: column, row and image of each. -/
def ListInsets : List Arg → List (Inset Piece) → Prop
  | [], [] => True
  | x :: y :: source :: rest, inset :: insets =>
    x.value = .int inset.x.toNat ∧ y.value = .int inset.y.toNat ∧ source.value.piece? = some inset.source ∧
      ListInsets rest insets
  | _, _ => False

namespace Base

/-- The instruction that a base denotes. -/
def Denotes : Base → Instr Piece → Prop
  | .texture name _, .texture source => source = .name name
  | .fill width height text _, .fill w h color =>
    width = w.toNat ∧ height = h.toNat ∧ Pixel.ofHexText? text = some color
  | .sheet call, .sheet source params => call.GivesPiece ["tex"] 0 source ∧ call.GivesFrames 1 params
  | .canvas call, .combine w h insets => ∃ width height rest, call.args = width :: height :: rest ∧
    width.value = .int w.toNat ∧ height.value = .int h.toNat ∧ ListInsets rest insets
  | _, _ => False

/-- Every third argument. -/
def thirds : List Arg → List Arg
  | _ :: _ :: source :: rest => source :: thirds rest
  | _ => []

/-- The arguments that a base is written with. -/
def args : Base → List Arg
  | .texture .. | .fill .. => []
  | .sheet call | .canvas call => call.args

/-- The images that a base is made of. -/
def pieces : Base → List Piece
  | .texture name _ => [.name name]
  | .fill .. => []
  | .sheet call => ((call.arg? ["tex"] (some 0)).bind fun a => a.value.piece?).toList
  | .canvas call => (thirds (call.args.drop 2)).filterMap fun a => a.value.piece?

end Base

namespace Pipeline

/-- The instructions that a pipeline denotes: one for its base, then one for each stage. -/
def Denotes (p : Pipeline) (instrs : List (Instr Piece)) : Prop :=
  ∃ first rest, p.base.Denotes first ∧ List.Forall₂ Call.Denotes p.stages rest ∧ instrs = first :: rest

/-- The pipelines nested in the images that a pipeline is made of, in order. Where several arguments could be one
image, only that which the operation takes counts. -/
def nested (p : Pipeline) : List Pipeline :=
  (p.base.pieces ++ p.stages.flatMap Call.pieces).filterMap Piece.nested?

/-- The pipelines nested in any argument of a pipeline, taken or not. -/
def written (p : Pipeline) : List Pipeline :=
  (p.base.args ++ p.stages.flatMap (·.args)).filterMap fun a => a.value.nested?

end Pipeline

section

variable {call : Call} {names : List String} {position : Nat}

theorem Call.pieces_of_givesPiece {piece : Piece} (gives : call.GivesPiece names position piece) :
    ((call.arg? names (some position)).bind fun a => a.value.piece?).toList = [piece] := by
  obtain ⟨a, found, isPiece⟩ := gives
  rw [found, Option.bind_some, isPiece, Option.toList_some]

/-- The operands of the instruction that a stage denotes are the images among its arguments. -/
theorem Call.Denotes.sources_eq {i : Instr Piece} (denotes : call.Denotes i) : i.sources = call.pieces := by
  cases i with
  | texture s | fill w h c | sheet s p | combine w h insets => exact denotes.elim
  | overlay s | mask s =>
    rw [pieces, denotes.1]
    exact (pieces_of_givesPiece denotes.2).symm
  | lowPart percent s =>
    rw [pieces, denotes.1]
    exact (pieces_of_givesPiece denotes.2.1).symm
  | dropAlpha =>
    rcases denotes with name | name
    · rw [pieces, name]
      rfl
    · rw [pieces, name]
      rfl
  | brighten =>
    have name : call.name = "brighten" := denotes
    rw [pieces, name]
    rfl
  | _ =>
    rw [pieces, denotes.1]
    rfl

theorem Call.flatMap_sources {calls : List Call} {instrs : List (Instr Piece)}
    (denote : List.Forall₂ Call.Denotes calls instrs) :
    instrs.flatMap Instr.sources = calls.flatMap Call.pieces := by
  induction denote with
  | nil => rfl
  | cons first others ih => rw [List.flatMap_cons, List.flatMap_cons, first.sources_eq, ih]

theorem ListInsets.sources_eq {args : List Arg} {insets : List (Inset Piece)} (lists : ListInsets args insets) :
    insets.map (·.source) = (Base.thirds args).filterMap fun a => a.value.piece? := by
  induction args, insets using ListInsets.induct with
  | case1 => rfl
  | case2 x y source rest inset insets ih =>
    obtain ⟨_, _, isPiece, others⟩ := lists
    rw [Base.thirds, List.filterMap_cons, isPiece, List.map_cons, ih others]
  | case3 args insets nothing short =>
    unfold ListInsets at lists
    split at lists
    · exact absurd rfl (nothing rfl)
    · exact absurd rfl (short _ _ _ _ _ _ rfl)
    · exact lists.elim

/-- The operands of the instruction that a base denotes are the images that it is made of. -/
theorem Base.Denotes.sources_eq {base : Base} {i : Instr Piece} (denotes : base.Denotes i) :
    i.sources = base.pieces := by
  cases base with
  | texture name offset =>
    cases i with
    | texture s => exact congrArg (fun piece => [piece]) denotes
    | _ => exact denotes.elim
  | fill width height text offset =>
    cases i with
    | fill w h c => rfl
    | _ => exact denotes.elim
  | sheet call =>
    cases i with
    | sheet s p => exact (Call.pieces_of_givesPiece denotes.1).symm
    | _ => exact denotes.elim
  | canvas call =>
    cases i with
    | combine w h insets =>
      obtain ⟨width, height, rest, written, _, _, lists⟩ := denotes
      rw [Instr.sources, lists.sources_eq, pieces, written, List.drop_succ_cons, List.drop_succ_cons, List.drop_zero]
    | _ => exact denotes.elim

/-- The pipelines nested in what a pipeline denotes are those nested in the pipeline. -/
theorem Pipeline.Denotes.nestedIn_eq {p : Pipeline} {instrs : List (Instr Piece)} (denotes : p.Denotes instrs) :
    Compile.nestedIn instrs = p.nested := by
  obtain ⟨first, rest, base, stages, rfl⟩ := denotes
  rw [Compile.nestedIn, ← List.filterMap_flatMap, List.flatMap_cons, base.sources_eq, Call.flatMap_sources stages,
    nested]

end

namespace Compile

section

variable {room : Nat} {op name : String} {aliases names : List String} {position : Nat} {call : Call} {a : Arg}

theorem piece?_of_pieceOf {piece : Piece} (success : pieceOf op room a = .ok piece) :
    a.value.piece? = some piece := by
  unfold pieceOf at success
  split at success
  · next name value =>
    cases success
    rw [value, Value.piece?]
  · next name value =>
    cases success
    rw [value, Value.piece?]
  · next name offset value =>
    cases success
    rw [value, Value.piece?]
  · next p bare value =>
    split at success
    · cases success
    · cases success
      rw [value, Value.piece?]
      exact bare
  · cases success

theorem givesPiece_of_required {piece : Piece} (found : required call name aliases position = .ok a)
    (success : pieceOf op room a = .ok piece) : call.GivesPiece (name :: aliases) position piece :=
  ⟨a, arg?_of_required found, piece?_of_pieceOf success⟩

theorem gives_of_required {v : Int} (found : required call name aliases position = .ok a)
    (success : intOf op a = .ok v) : call.Gives (name :: aliases) position v :=
  ⟨a, arg?_of_required found, value_of_intOf success⟩

theorem givesOr_of_intOr {usual v : Int} (success : intOr call usual names position = .ok v) :
    call.GivesOr usual names position v := by
  unfold intOr at success
  split at success
  · next a found => exact .inl ⟨a, found, value_of_intOf success⟩
  · next absent =>
    cases success
    exact .inr ⟨absent, rfl⟩

theorem givesColor_of_required {color : Pixel} (found : required call name aliases position = .ok a)
    (success : colorOf op a = .ok color) : call.GivesColor (name :: aliases) position color := by
  refine ⟨a, arg?_of_required found, ?_⟩
  unfold colorOf at success
  split at success
  · next color isColor =>
    cases success
    exact isColor
  · cases success

theorem eq_of_side {what : String} {offset : Nat} {v : Int} {size : UInt16} (success : side what offset v = .ok size) :
    v = size.toNat := by
  unfold side at success
  split at success
  · cases success
    rw [toNat_toUInt16_of_le (by omega)]
    omega
  · cases success

theorem value_of_sideOf {what : String} {size : UInt16} (success : sideOf op what a = .ok size) :
    a.value = .int size.toNat := by
  obtain ⟨v, isInt, success⟩ := exists_of_bind_eq_ok success
  rw [value_of_intOf isInt, eq_of_side success]

theorem value_of_coordinateOf {c : UInt16} (success : coordinateOf a = .ok c) : a.value = .int c.toNat := by
  obtain ⟨v, isInt, success⟩ := exists_of_bind_eq_ok success
  split at success
  · cases success
    rw [value_of_intOf isInt, toNat_toUInt16_of_le (by omega), Int.toNat_of_nonneg (by omega)]
  · cases success

theorem toNat_byteOf (v : Int) : ((byteOf v).toNat : Int) = max 0 (min v 255) := by
  rw [← UInt8.toNat_toUInt32, toUInt32_byteOf, Pixel.clampChannel]
  split
  · rw [show (0 : UInt32).toNat = 0 from rfl]
    omega
  · split
    · rw [show (255 : UInt32).toNat = 255 from rfl]
      omega
    · rw [Nat.toUInt32_eq, UInt32.toNat_ofNat', Nat.mod_eq_of_lt (by omega)]
      omega

theorem givesOr_of_animationWord {what : String} {word : UInt16}
    (success : animationWord call what names position = .ok word) :
    call.GivesOr 0 names position word.toNat := by
  unfold animationWord at success
  split at success
  · next absent =>
    cases success
    exact .inr ⟨absent, rfl⟩
  · next a found =>
    obtain ⟨v, isInt, success⟩ := exists_of_bind_eq_ok success
    split at success
    · cases success
      rw [toNat_toUInt16_of_le (by omega), Int.toNat_of_nonneg (by omega)]
      exact .inl ⟨a, found, value_of_intOf isInt⟩
    · cases success

theorem givesOr_of_animationRate {rate : UInt16} (success : animationRate call position = .ok rate) :
    ∃ fps, call.GivesOr 0 ["fps"] position fps ∧
      (rate.toNat : Int) = if fps = 0 then 2048 else min (fps * 256) 65535 := by
  unfold animationRate at success
  split at success
  · next absent =>
    cases success
    exact ⟨0, .inr ⟨absent, rfl⟩, rfl⟩
  · next a found =>
    obtain ⟨fps, isInt, success⟩ := exists_of_bind_eq_ok success
    refine ⟨fps, .inl ⟨a, found, value_of_intOf isInt⟩, ?_⟩
    split at success
    · cases success
    · split at success
      · next zero =>
        cases success
        rw [if_pos zero]
        rfl
      · next some =>
        cases success
        rw [if_neg some, toNat_toUInt16_of_le (by omega)]
        omega

theorem givesAxis_of_animationAxis {flag : UInt8} (success : animationAxis call = .ok flag) :
    ∃ axis, call.GivesAxis axis ∧ flag = axisFlag axis := by
  unfold animationAxis at success
  split at success
  · next absent =>
    cases success
    refine ⟨"", ?_, rfl⟩
    rw [Call.GivesAxis, absent]
  · next a found =>
    split at success
    · next axis isText =>
      cases success
      refine ⟨axis, ?_, rfl⟩
      rw [Call.GivesAxis, found]
      exact isText
    · cases success

theorem givesFrames_of_animationOf {shift : Nat} {params : AnimParams}
    (success : animationOf call shift = .ok params) : call.GivesFrames shift params := by
  obtain ⟨width, widthOk, success⟩ := exists_of_bind_eq_ok success
  obtain ⟨height, heightOk, success⟩ := exists_of_bind_eq_ok success
  obtain ⟨count, countOk, success⟩ := exists_of_bind_eq_ok success
  obtain ⟨rate, rateOk, success⟩ := exists_of_bind_eq_ok success
  have smoothly : ∃ smooth axis, call.GivesOr 0 ["smooth"] (shift + 4) smooth ∧ animationAxis call = .ok axis ∧
      params = ⟨width, height, count, rate, (if smooth = 0 then 0 else AnimParams.smoothFlag) ||| axis⟩ := by
    split at success
    · next absent =>
      obtain ⟨smooth, zero, success⟩ := exists_of_bind_eq_ok success
      obtain ⟨axis, axisOk, success⟩ := exists_of_bind_eq_ok success
      cases zero
      cases success
      exact ⟨0, axis, .inr ⟨absent, rfl⟩, axisOk, rfl⟩
    · next a found =>
      obtain ⟨smooth, isInt, success⟩ := exists_of_bind_eq_ok success
      obtain ⟨axis, axisOk, success⟩ := exists_of_bind_eq_ok success
      cases success
      exact ⟨smooth, axis, .inl ⟨a, found, value_of_intOf isInt⟩, axisOk, rfl⟩
  obtain ⟨smooth, axis, smoothness, axisOk, rfl⟩ := smoothly
  obtain ⟨text, givesAxis, rfl⟩ := givesAxis_of_animationAxis axisOk
  exact ⟨givesOr_of_animationWord widthOk, givesOr_of_animationWord heightOk, givesOr_of_animationWord countOk,
    givesOr_of_animationRate rateOk, smooth, text, smoothness, givesAxis, rfl⟩

theorem givesChannels_of_channelsOf {bits : UInt8} (found : call.arg? ["channels"] (some 0) = some a)
    (success : channelsOf a = .ok bits) : call.GivesChannels bits := by
  unfold channelsOf at success
  split at success
  · cases success
  · next text isText =>
    unfold Call.GivesChannels
    rw [found]
    refine ⟨text, isText, ?_⟩
    rw [channels_of_foldlM _ success, UInt8.zero_or]
    rfl

theorem toUInt32_channel (c : UInt32) : (c &&& 255).toUInt8.toUInt32 = c &&& 255 :=
  toUInt8_toUInt32_of_lt (by
    rw [UInt32.lt_iff_toNat_lt, UInt32.toNat_and]
    exact Nat.lt_of_le_of_lt Nat.and_le_right (by decide))

/-- A stage is compiled to the instruction that it denotes. -/
theorem denotes_of_stageInstr {i : Instr Piece} (success : stageInstr room call = .ok i) : call.Denotes i := by
  unfold stageInstr at success
  split at success
  case h_1 name | h_2 name =>
    -- overlay, mask
    obtain ⟨_, _, success⟩ := exists_of_bind_eq_ok success
    obtain ⟨a, found, success⟩ := exists_of_bind_eq_ok success
    obtain ⟨piece, isPiece, success⟩ := exists_of_bind_eq_ok success
    cases success
    exact ⟨name, givesPiece_of_required found isPiece⟩
  case h_3 name =>
    -- lowpart
    obtain ⟨_, _, success⟩ := exists_of_bind_eq_ok success
    obtain ⟨percentArg, percentFound, success⟩ := exists_of_bind_eq_ok success
    obtain ⟨percent, isPercent, success⟩ := exists_of_bind_eq_ok success
    split at success
    · cases success
    · obtain ⟨a, found, success⟩ := exists_of_bind_eq_ok success
      obtain ⟨piece, isPiece, success⟩ := exists_of_bind_eq_ok success
      cases success
      have stored := toNat_byteOf (min percent 100)
      exact ⟨name, givesPiece_of_required found isPiece, percent, gives_of_required percentFound isPercent, by omega,
        by omega⟩
  case h_4 name =>
    -- resize
    obtain ⟨_, _, success⟩ := exists_of_bind_eq_ok success
    obtain ⟨aw, widthFound, success⟩ := exists_of_bind_eq_ok success
    obtain ⟨ah, heightFound, success⟩ := exists_of_bind_eq_ok success
    obtain ⟨w, isWidth, success⟩ := exists_of_bind_eq_ok success
    obtain ⟨h, isHeight, success⟩ := exists_of_bind_eq_ok success
    cases success
    exact ⟨name, ⟨aw, arg?_of_required widthFound, value_of_sideOf isWidth⟩,
      ⟨ah, arg?_of_required heightFound, value_of_sideOf isHeight⟩⟩
  case h_5 name =>
    -- transform
    obtain ⟨_, _, success⟩ := exists_of_bind_eq_ok success
    obtain ⟨a, found, success⟩ := exists_of_bind_eq_ok success
    obtain ⟨mode, isMode, success⟩ := exists_of_bind_eq_ok success
    cases success
    refine ⟨name, mode, gives_of_required found isMode, ?_⟩
    rw [Nat.toUInt8_eq, UInt8.toNat_ofNat', Nat.mod_eq_of_lt (by omega)]
    omega
  case h_6 name =>
    -- opacity
    obtain ⟨_, _, success⟩ := exists_of_bind_eq_ok success
    obtain ⟨alpha, isAlpha, success⟩ := exists_of_bind_eq_ok success
    cases success
    exact ⟨name, alpha, givesOr_of_intOr isAlpha, toNat_byteOf alpha⟩
  case h_7 name =>
    -- remove_alpha
    obtain ⟨_, _, success⟩ := exists_of_bind_eq_ok success
    cases success
    exact .inl name
  case h_8 name =>
    -- noalpha
    obtain ⟨_, _, success⟩ := exists_of_bind_eq_ok success
    cases success
    exact .inr name
  case h_9 name =>
    -- make_alpha
    obtain ⟨_, _, success⟩ := exists_of_bind_eq_ok success
    obtain ⟨a, found, success⟩ := exists_of_bind_eq_ok success
    obtain ⟨color, isColor, success⟩ := exists_of_bind_eq_ok success
    cases success
    exact ⟨name, color, givesColor_of_required found isColor, toUInt32_channel _, toUInt32_channel _,
      toUInt32_channel _⟩
  case h_10 name =>
    -- invert
    obtain ⟨_, _, success⟩ := exists_of_bind_eq_ok success
    split at success
    · next a found =>
      obtain ⟨bits, areBits, success⟩ := exists_of_bind_eq_ok success
      cases success
      exact ⟨name, givesChannels_of_channelsOf found areBits⟩
    · next absent =>
      cases success
      refine ⟨name, ?_⟩
      rw [Call.GivesChannels, absent]
  case h_11 name =>
    -- brighten
    obtain ⟨_, _, success⟩ := exists_of_bind_eq_ok success
    cases success
    exact name
  case h_12 name =>
    -- contrast
    obtain ⟨_, _, success⟩ := exists_of_bind_eq_ok success
    obtain ⟨level, isLevel, success⟩ := exists_of_bind_eq_ok success
    obtain ⟨brightness, isBrightness, success⟩ := exists_of_bind_eq_ok success
    cases success
    exact ⟨name, ⟨level, givesOr_of_intOr isLevel, signedOperand_storedOperand level⟩,
      ⟨brightness, givesOr_of_intOr isBrightness, signedOperand_storedOperand brightness⟩⟩
  case h_13 name | h_14 name =>
    -- multiply, screen
    obtain ⟨_, _, success⟩ := exists_of_bind_eq_ok success
    obtain ⟨a, found, success⟩ := exists_of_bind_eq_ok success
    obtain ⟨color, isColor, success⟩ := exists_of_bind_eq_ok success
    cases success
    exact ⟨name, givesColor_of_required found isColor⟩
  case h_15 name =>
    -- colorize
    obtain ⟨_, _, success⟩ := exists_of_bind_eq_ok success
    obtain ⟨a, found, success⟩ := exists_of_bind_eq_ok success
    obtain ⟨color, isColor, success⟩ := exists_of_bind_eq_ok success
    obtain ⟨ratio, isRatio, success⟩ := exists_of_bind_eq_ok success
    cases success
    exact ⟨name, givesColor_of_required found isColor, ratio, givesOr_of_intOr isRatio, toNat_byteOf ratio⟩
  case h_16 name =>
    -- anim
    obtain ⟨_, _, success⟩ := exists_of_bind_eq_ok success
    obtain ⟨params, areParams, success⟩ := exists_of_bind_eq_ok success
    cases success
    exact ⟨name, givesFrames_of_animationOf areParams⟩
  case h_17 => cases success

end

theorem listInsets_of_insetsOf {room : Nat} (args : List Arg) (done : Array (Inset Piece)) :
    ∀ {insets : List (Inset Piece)}, insetsOf room args done = .ok insets → args.length % 3 = 0 →
      ∃ added, insets = done.toList ++ added ∧ ListInsets args added := by
  induction args, done using insetsOf.induct with
  | case1 done ax ay source rest ih =>
    intro insets success complete
    unfold insetsOf at success
    obtain ⟨x, isColumn, success⟩ := exists_of_bind_eq_ok success
    obtain ⟨y, isRow, success⟩ := exists_of_bind_eq_ok success
    obtain ⟨piece, isPiece, success⟩ := exists_of_bind_eq_ok success
    obtain ⟨added, rfl, others⟩ := ih x y piece success (by simp only [List.length_cons] at complete; omega)
    refine ⟨⟨x, y, piece⟩ :: added, by simp, ?_⟩
    exact ⟨value_of_coordinateOf isColumn, value_of_coordinateOf isRow, piece?_of_pieceOf isPiece, others⟩
  | case2 args done short =>
    intro insets success complete
    rcases args with _ | ⟨ax, _ | ⟨ay, _ | ⟨source, rest⟩⟩⟩
    · cases success
      exact ⟨[], by simp, trivial⟩
    · simp at complete
    · simp at complete
    · exact absurd rfl (short ax ay source rest)

/-- A base is compiled to the instruction that it denotes. -/
theorem denotes_of_baseInstr {room : Nat} {base : Base} {i : Instr Piece} (success : baseInstr room base = .ok i) :
    base.Denotes i := by
  cases base with
  | texture name offset =>
    cases success
    rfl
  | fill width height text offset =>
    obtain ⟨w, isWidth, success⟩ := exists_of_bind_eq_ok success
    obtain ⟨h, isHeight, success⟩ := exists_of_bind_eq_ok success
    split at success
    · next color isColor =>
      cases success
      exact ⟨eq_of_side isWidth, eq_of_side isHeight, isColor⟩
    · cases success
  | sheet call =>
    obtain ⟨_, _, success⟩ := exists_of_bind_eq_ok success
    split at success
    · cases success
    · next source found =>
      obtain ⟨params, areParams, success⟩ := exists_of_bind_eq_ok success
      obtain ⟨piece, isPiece, success⟩ := exists_of_bind_eq_ok success
      cases success
      exact ⟨⟨source, found, piece?_of_pieceOf isPiece⟩, givesFrames_of_animationOf areParams⟩
  | canvas call =>
    rw [baseInstr, canvasInstr] at success
    split at success
    · cases success
    · split at success
      · next width height insets written =>
        split at success
        · cases success
        · next complete =>
          obtain ⟨w, isWidth, success⟩ := exists_of_bind_eq_ok success
          obtain ⟨h, isHeight, success⟩ := exists_of_bind_eq_ok success
          split at success
          · cases success
          · obtain ⟨placed, areInsets, success⟩ := exists_of_bind_eq_ok success
            cases success
            obtain ⟨added, rfl, lists⟩ := listInsets_of_insetsOf insets #[] areInsets (by omega)
            exact ⟨width, height, insets, written, value_of_sideOf isWidth, value_of_sideOf isHeight, lists⟩
      · cases success

/-- A pipeline is compiled to the instructions that it denotes. -/
theorem IsReadAs.denotes {room : Nat} {p : Pipeline} {instrs : List (Instr Piece)} (read : IsReadAs room p instrs) :
    p.Denotes instrs := by
  obtain ⟨first, rest, isBase, areStages, rfl⟩ := read
  have stages : ∀ (calls : List Call) {others : List (Instr Piece)}, calls.mapM (stageInstr room) = .ok others →
      List.Forall₂ Call.Denotes calls others := by
    intro calls
    induction calls with
    | nil =>
      intro others success
      cases success
      exact .nil
    | cons call rest ih =>
      intro others success
      obtain ⟨i, others, isStage, areStages, rfl⟩ := mapM_cons_eq_ok success
      exact .cons (denotes_of_stageInstr isStage) (ih areStages)
  exact ⟨first, rest, denotes_of_baseInstr isBase, stages p.stages areStages, rfl⟩

end Compile

end TextureLoom
