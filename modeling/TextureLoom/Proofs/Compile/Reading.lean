import TextureLoom.Compile.Stage
import TextureLoom.Proofs.Pipeline.Evaluate

set_option autoImplicit false

namespace TextureLoom

open Pipeline (Setting Outcome Meaning Readings Reading)

/-- A successful sequence has a successful first step. -/
theorem exists_of_bind_eq_ok {ε α β : Type} {first : Except ε α} {next : α → Except ε β} {result : β}
    (success : (first >>= next) = .ok result) : ∃ value, first = .ok value ∧ next value = .ok result := by
  cases first with
  | error reason => cases success
  | ok value => exact ⟨value, rfl, success⟩

namespace Pipeline

theorem read_eq_map (s : Setting) (args : List Arg) :
    read s args = args.map fun a => ⟨a.name, a.value.meaning s⟩ := by
  induction args with
  | nil => rfl
  | cons a rest ih =>
    obtain ⟨name, value, offset⟩ := a
    simp only [read, List.map_cons, ih]

theorem get?_read (s : Setting) (call : Call) (names : List String) (position : Option Nat) :
    (read s call.args).get? names position = (call.arg? names position).map fun a => a.value.meaning s := by
  have named : (fun a : Reading => a.name.any names.contains) ∘ (fun a : Arg => ⟨a.name, a.value.meaning s⟩) =
      Arg.isNamed names := by
    funext a
    simp only [Function.comp_apply, Arg.isNamed]
    cases a.name <;> rfl
  have unnamed : (fun a : Reading => a.name.isNone) ∘ (fun a : Arg => ⟨a.name, a.value.meaning s⟩) =
      fun a : Arg => a.name.isNone := rfl
  simp only [Readings.get?, Call.arg?, read_eq_map, List.find?_map, List.filter_map, named, unnamed,
    List.getElem?_map]
  cases call.args.find? (Arg.isNamed names) with
  | some a => rfl
  | none =>
    cases position with
    | none => rfl
    | some i =>
      simp only [Option.bind_some, Option.map_map]
      rfl

theorem number_read {s : Setting} {call : Call} {names : List String} {position : Nat} {a : Arg} {v : Int}
    (fallback : Int) (found : call.arg? names (some position) = some a) (isInt : a.value = .int v) :
    (read s call.args).number fallback names position = v := by
  simp only [Readings.number, get?_read, found, Option.map_some, isInt, Value.meaning]

theorem number_read_of_none {s : Setting} {call : Call} {names : List String} {position : Nat} (fallback : Int)
    (absent : call.arg? names (some position) = none) :
    (read s call.args).number fallback names position = fallback := by
  simp only [Readings.number, get?_read, absent, Option.map_none]

theorem text?_read (s : Setting) (call : Call) (names : List String) (position : Option Nat) :
    (read s call.args).text? names position = (call.arg? names position).bind fun a => a.value.text? := by
  simp only [Readings.text?, get?_read]
  cases call.arg? names position with
  | none => rfl
  | some a => cases h : a.value <;> simp [Value.meaning, Value.text?, h]

theorem image_read {s : Setting} {call : Call} {names : List String} {position : Nat} {a : Arg}
    (found : call.arg? names (some position) = some a) :
    (read s call.args).image s names position = (a.value.meaning s).toImage s := by
  simp only [Readings.image, get?_read, found, Option.map_some]

end Pipeline

namespace Compile

open Pipeline (read)

/-- What an operand gives on its own. -/
def Piece.evaluate (s : Setting) : Piece → Outcome Image
  | .name text => s.named text
  | .nested p => p.evaluate s

theorem arg?_of_required {call : Call} {name : String} {aliases : List String} {position : Nat} {a : Arg}
    (success : required call name aliases position = .ok a) : call.arg? (name :: aliases) (some position) = some a := by
  unfold required at success
  split at success
  · cases success; assumption
  · cases success

theorem value_of_intOf {op : String} {a : Arg} {v : Int} (success : intOf op a = .ok v) : a.value = .int v := by
  unfold intOf at success
  split at success
  · cases success; assumption
  · cases success

theorem number_of_intOr {s : Setting} {call : Call} {fallback v : Int} {names : List String} {position : Nat}
    (success : intOr call fallback names position = .ok v) : (read s call.args).number fallback names position = v := by
  unfold intOr at success
  split at success
  · exact Pipeline.number_read fallback ‹_› (value_of_intOf success)
  · cases success
    exact Pipeline.number_read_of_none fallback ‹_›

theorem evaluate_of_pieceOf {s : Setting} {op : String} {room : Nat} {a : Arg} {piece : Piece}
    (success : pieceOf op room a = .ok piece) : (a.value.meaning s).toImage s = piece.evaluate s := by
  unfold pieceOf at success
  split at success
  · cases success
    simp only [*, Value.meaning, Meaning.toImage, Piece.evaluate]
  · cases success
    simp only [*, Value.meaning, Meaning.toImage, Piece.evaluate]
  · cases success
    simp only [*, Value.meaning, Meaning.toImage, Piece.evaluate, Pipeline.evaluate, Base.evaluate,
      Pipeline.evaluateStages]
    cases s.named _ <;> rfl
  · split at success
    · cases success
    · cases success
      simp only [*, Value.meaning, Meaning.toImage, Piece.evaluate]
  · cases success

/-- An operand that is looked up by name or position gives what the piece made of it gives. -/
theorem image_of_pieceOf {s : Setting} {call : Call} {op : String} {room : Nat} {names : List String} {position : Nat}
    {a : Arg} {piece : Piece} (found : call.arg? names (some position) = some a)
    (success : pieceOf op room a = .ok piece) : (read s call.args).image s names position = piece.evaluate s := by
  rw [Pipeline.image_read found, evaluate_of_pieceOf success]

theorem toNat_toUInt16_of_le {v : Int} (upper : v ≤ 65535) : v.toNat.toUInt16.toNat = v.toNat := by
  rw [Nat.toUInt16_eq, UInt16.toNat_ofNat', Nat.mod_eq_of_lt (by omega)]

theorem size_of_side {what : String} {offset : Nat} {v : Int} {size : UInt16}
    (success : side what offset v = .ok size) : v.toNat = size.toNat ∧ 0 < size.toNat := by
  unfold side at success
  split at success
  · cases success
    rw [toNat_toUInt16_of_le (by omega)]
    omega
  · cases success

theorem size_of_sideOf {op what : String} {a : Arg} {size : UInt16} (success : sideOf op what a = .ok size) :
    ∃ v, a.value = .int v ∧ v.toNat = size.toNat ∧ 0 < size.toNat := by
  obtain ⟨v, isInt, success⟩ := exists_of_bind_eq_ok success
  exact ⟨v, value_of_intOf isInt, size_of_side success⟩

theorem color_of_colorOf {s : Setting} {call : Call} {op : String} {names : List String} {position : Nat} {a : Arg}
    {color : Pixel} (found : call.arg? names (some position) = some a) (success : colorOf op a = .ok color) :
    (read s call.args).color names position = color := by
  unfold colorOf at success
  split at success
  · cases success
    simp only [Readings.color, Pipeline.text?_read, Option.bind_some, *, Option.getD_some]
  · cases success

theorem toUInt8_toUInt32_of_lt {v : UInt32} (small : v < 256) : v.toUInt8.toUInt32 = v := by
  apply UInt32.toNat_inj.mp
  have below : v.toNat < 256 := small
  simp only [UInt8.toNat_toUInt32, UInt32.toNat_toUInt8, Nat.reducePow]
  exact Nat.mod_eq_of_lt below

theorem clampChannel_lt (v : Int) : Pixel.clampChannel v < 256 := by
  unfold Pixel.clampChannel
  split
  · decide
  · split
    · decide
    · rw [UInt32.lt_iff_toNat_lt, Nat.toUInt32_eq, UInt32.toNat_ofNat', Nat.mod_eq_of_lt (by omega)]
      change v.toNat < 256
      omega

theorem toUInt32_byteOf (v : Int) : (byteOf v).toUInt32 = Pixel.clampChannel v :=
  toUInt8_toUInt32_of_lt (clampChannel_lt v)

theorem signedOperand_storedOperand (v : Int) :
    Bytecode.signedOperand (storedOperand v) = max (-127) (min v 127) := by
  unfold Bytecode.signedOperand storedOperand
  rw [Nat.toUInt8_eq, UInt8.toNat_ofNat', Nat.mod_eq_of_lt (by omega)]
  omega

theorem word_of_animationWord {s : Setting} {call : Call} {what : String} {names : List String} {position : Nat}
    {word : UInt16} (success : animationWord call what names position = .ok word) :
    ((read s call.args).number 0 names position).toNat.toUInt16 = word := by
  unfold animationWord at success
  split at success
  · cases success
    rw [Pipeline.number_read_of_none 0 ‹_›]
    rfl
  · obtain ⟨v, isInt, success⟩ := exists_of_bind_eq_ok success
    rw [Pipeline.number_read 0 ‹_› (value_of_intOf isInt)]
    split at success
    · cases success; rfl
    · cases success

theorem rate_of_animationRate {s : Setting} {call : Call} {position : Nat} {rate : UInt16}
    (success : animationRate call position = .ok rate) : (read s call.args).rate position = rate := by
  unfold animationRate at success
  unfold Readings.rate
  split at success
  · cases success
    rw [Pipeline.number_read_of_none 0 ‹_›]
    rfl
  · obtain ⟨v, isInt, success⟩ := exists_of_bind_eq_ok success
    rw [Pipeline.number_read 0 ‹_› (value_of_intOf isInt)]
    split at success
    · cases success
    · split at success
      · cases success
        simp only [*, ↓reduceIte]
      · cases success
        simp only [*, ↓reduceIte]

theorem axis_of_animationAxis {s : Setting} {call : Call} {flag : UInt8} (success : animationAxis call = .ok flag) :
    axisFlag (((read s call.args).text? ["axis"] none).getD "") = flag := by
  unfold animationAxis at success
  rw [Pipeline.text?_read]
  split at success
  · cases success
    simp only [*, Option.bind_none, Option.getD_none]
  · split at success
    · cases success
      simp only [*, Option.bind_some, Option.getD_some]
    · cases success

theorem frames_of_animationOf {s : Setting} {call : Call} {shift : Nat} {params : Bytecode.AnimParams}
    (success : animationOf call shift = .ok params) : (read s call.args).frames shift = params := by
  obtain ⟨width, widthOk, success⟩ := exists_of_bind_eq_ok success
  obtain ⟨height, heightOk, success⟩ := exists_of_bind_eq_ok success
  obtain ⟨count, countOk, success⟩ := exists_of_bind_eq_ok success
  obtain ⟨rate, rateOk, success⟩ := exists_of_bind_eq_ok success
  have smoothly : ∃ smooth axis, (read s call.args).number 0 ["smooth"] (shift + 4) = smooth ∧
      animationAxis call = .ok axis ∧ params = ⟨width, height, count, rate,
        (if smooth = 0 then 0 else Bytecode.AnimParams.smoothFlag) ||| axis⟩ := by
    split at success
    · obtain ⟨smooth, zero, success⟩ := exists_of_bind_eq_ok success
      obtain ⟨axis, axisOk, success⟩ := exists_of_bind_eq_ok success
      cases zero
      cases success
      exact ⟨0, axis, Pipeline.number_read_of_none 0 ‹_›, axisOk, rfl⟩
    · obtain ⟨smooth, smoothOk, success⟩ := exists_of_bind_eq_ok success
      obtain ⟨axis, axisOk, success⟩ := exists_of_bind_eq_ok success
      cases success
      exact ⟨smooth, axis, Pipeline.number_read 0 ‹_› (value_of_intOf smoothOk), axisOk, rfl⟩
  obtain ⟨smooth, axis, smoothness, axisOk, rfl⟩ := smoothly
  simp only [Readings.frames, word_of_animationWord widthOk, word_of_animationWord heightOk,
    word_of_animationWord countOk, rate_of_animationRate rateOk, axis_of_animationAxis axisOk, smoothness]

theorem channelBits_or (red red' green green' blue blue' alpha alpha' : Bool) :
    Pipeline.channelBits (red || red') (green || green') (blue || blue') (alpha || alpha') =
      Pipeline.channelBits red green blue alpha ||| Pipeline.channelBits red' green' blue' alpha' := by
  revert red red' green green' blue blue' alpha alpha'
  decide

theorem channelBits_of_channelBit? {c : Char} {bit : UInt8} (known : channelBit? c = some bit) :
    Pipeline.channelBits (c == 'r') (c == 'g') (c == 'b') (c == 'a') = bit := by
  unfold channelBit? at known
  simp only [beq_iff_eq] at known
  split at known
  · subst c; cases known; decide
  · split at known
    · subst c; cases known; decide
    · split at known
      · subst c; cases known; decide
      · split at known
        · subst c; cases known; decide
        · cases known

/-- The channels gathered letter by letter are those that the text lists. -/
theorem channels_of_foldlM {offset : Nat} (letters : List Char) :
    ∀ {before bits : UInt8}, letters.foldlM (fun bits c =>
        match channelBit? c.toLower with
        | some bit => (.ok (bits ||| bit) : Checked UInt8)
        | none => reject offset (.unknownChannel c.toLower)) before = .ok bits →
      bits = before ||| Pipeline.channelBits (letters.any fun c => c.toLower == 'r')
        (letters.any fun c => c.toLower == 'g') (letters.any fun c => c.toLower == 'b')
        (letters.any fun c => c.toLower == 'a') := by
  induction letters with
  | nil =>
    intro before bits success
    cases success
    simp [Pipeline.channelBits]
  | cons c rest ih =>
    intro before bits success
    rw [List.foldlM_cons] at success
    obtain ⟨next, known, success⟩ := exists_of_bind_eq_ok success
    split at known
    · rename_i bit isBit
      cases known
      rw [ih success, ← channelBits_of_channelBit? isBit, UInt8.or_assoc, ← channelBits_or]
      simp only [List.any_cons]
    · cases known

theorem channels_of_channelsOf {s : Setting} {call : Call} {a : Arg} {bits : UInt8}
    (found : call.arg? ["channels"] (some 0) = some a) (success : channelsOf a = .ok bits) :
    (read s call.args).channels = bits := by
  unfold channelsOf at success
  split at success
  · cases success
  · rw [channels_of_foldlM _ success]
    simp only [Readings.channels, Pipeline.text?_read, Option.bind_some, *, Pipeline.lists, UInt8.zero_or]

theorem number_of_required {s : Setting} {call : Call} {op name : String} {aliases : List String} {position : Nat}
    {a : Arg} {v : Int} (found : required call name aliases position = .ok a) (isInt : intOf op a = .ok v) :
    (read s call.args).number 0 (name :: aliases) position = v :=
  Pipeline.number_read 0 (arg?_of_required found) (value_of_intOf isInt)

theorem checkNonempty_of_pos {what : String} {width height position : Nat} (widthPos : 0 < width)
    (heightPos : 0 < height) : (Bake.checkNonempty what width height position : Outcome Unit) = pure () := by
  unfold Bake.checkNonempty
  rw [if_neg (by omega)]

/-- A stage's instruction makes of an image what the stage makes of it. -/
theorem step_of_stageInstr {s : Setting} {room position : Nat} {call : Call} {i : Bytecode.Instr Piece} {img : Image}
    (success : stageInstr room call = .ok i) :
    Bake.step (Piece.evaluate s) s.seconds position i (some img) =
      Pipeline.applyStage s call.name (read s call.args) img := by
  unfold stageInstr at success
  split at success
  case h_1 name | h_2 name =>
    -- overlay, mask
    obtain ⟨_, _, success⟩ := exists_of_bind_eq_ok success
    obtain ⟨a, found, success⟩ := exists_of_bind_eq_ok success
    obtain ⟨piece, isPiece, success⟩ := exists_of_bind_eq_ok success
    cases success
    simp only [name, Bake.step, Bake.needBase, pure_bind, Pipeline.applyStage,
      image_of_pieceOf (arg?_of_required found) isPiece]
  case h_3 name =>
    -- lowpart
    obtain ⟨_, _, success⟩ := exists_of_bind_eq_ok success
    obtain ⟨percentArg, percentFound, success⟩ := exists_of_bind_eq_ok success
    obtain ⟨percent, isPercent, success⟩ := exists_of_bind_eq_ok success
    split at success
    · cases success
    · obtain ⟨a, found, success⟩ := exists_of_bind_eq_ok success
      obtain ⟨piece, isPiece, success⟩ := exists_of_bind_eq_ok success
      cases success
      have stored : (byteOf (min percent 100)).toNat = (min percent 100).toNat := by
        have small : min percent 100 ≤ 100 := by omega
        rw [← UInt8.toNat_toUInt32, toUInt32_byteOf, Pixel.clampChannel, if_neg (by omega),
          if_neg (by omega), Nat.toUInt32_eq, UInt32.toNat_ofNat', Nat.mod_eq_of_lt (by omega)]
      simp only [name, Bake.step, Bake.needBase, pure_bind, Pipeline.applyStage, stored,
        image_of_pieceOf (arg?_of_required found) isPiece, number_of_required percentFound isPercent]
  case h_4 name =>
    -- resize
    obtain ⟨_, _, success⟩ := exists_of_bind_eq_ok success
    obtain ⟨aw, widthFound, success⟩ := exists_of_bind_eq_ok success
    obtain ⟨ah, heightFound, success⟩ := exists_of_bind_eq_ok success
    obtain ⟨w, isWidth, success⟩ := exists_of_bind_eq_ok success
    obtain ⟨h, isHeight, success⟩ := exists_of_bind_eq_ok success
    cases success
    obtain ⟨width, widthMeant, widthStored, widthPos⟩ := size_of_sideOf isWidth
    obtain ⟨height, heightMeant, heightStored, heightPos⟩ := size_of_sideOf isHeight
    simp only [name, Bake.step, Bake.needBase, pure_bind, Pipeline.applyStage,
      Pipeline.number_read 0 (arg?_of_required widthFound) widthMeant,
      Pipeline.number_read 0 (arg?_of_required heightFound) heightMeant, widthStored, heightStored,
      checkNonempty_of_pos widthPos heightPos]
  case h_5 name =>
    -- transform
    obtain ⟨_, _, success⟩ := exists_of_bind_eq_ok success
    obtain ⟨a, found, success⟩ := exists_of_bind_eq_ok success
    obtain ⟨mode, isMode, success⟩ := exists_of_bind_eq_ok success
    cases success
    have stored : (mode % 8).toNat.toUInt8.toNat = (mode % 8).toNat := by
      rw [Nat.toUInt8_eq, UInt8.toNat_ofNat', Nat.mod_eq_of_lt (by omega)]
    simp only [name, Bake.step, Bake.needBase, pure_bind, Pipeline.applyStage, stored,
      number_of_required found isMode]
  case h_6 name =>
    -- opacity
    obtain ⟨_, _, success⟩ := exists_of_bind_eq_ok success
    obtain ⟨alpha, isAlpha, success⟩ := exists_of_bind_eq_ok success
    cases success
    simp only [name, Bake.step, Bake.needBase, pure_bind, Pipeline.applyStage, toUInt32_byteOf,
      number_of_intOr isAlpha]
  case h_7 name | h_8 name | h_11 name =>
    -- remove_alpha, noalpha, brighten
    obtain ⟨_, _, success⟩ := exists_of_bind_eq_ok success
    cases success
    simp only [name, Bake.step, Bake.needBase, pure_bind, Pipeline.applyStage]
  case h_9 name =>
    -- make_alpha
    obtain ⟨_, _, success⟩ := exists_of_bind_eq_ok success
    obtain ⟨a, found, success⟩ := exists_of_bind_eq_ok success
    obtain ⟨color, isColor, success⟩ := exists_of_bind_eq_ok success
    cases success
    have channel (c : UInt32) : (c &&& 255).toUInt8.toUInt32 = c &&& 255 :=
      toUInt8_toUInt32_of_lt (by
        rw [UInt32.lt_iff_toNat_lt, UInt32.toNat_and]
        exact Nat.lt_of_le_of_lt Nat.and_le_right (by decide))
    simp only [name, Bake.step, Bake.needBase, pure_bind, Pipeline.applyStage, Pixel.red, Pixel.green, Pixel.blue,
      channel, color_of_colorOf (arg?_of_required found) isColor]
  case h_10 name =>
    -- invert
    obtain ⟨_, _, success⟩ := exists_of_bind_eq_ok success
    split at success
    · obtain ⟨bits, areBits, success⟩ := exists_of_bind_eq_ok success
      cases success
      simp only [name, Bake.step, Bake.needBase, pure_bind, Pipeline.applyStage, channels_of_channelsOf ‹_› areBits]
    · cases success
      simp only [Bake.step, Bake.needBase, pure_bind, Pipeline.applyStage, Readings.channels,
        Pipeline.text?_read, *, Option.bind_none]
  case h_12 name =>
    -- contrast
    obtain ⟨_, _, success⟩ := exists_of_bind_eq_ok success
    obtain ⟨level, isLevel, success⟩ := exists_of_bind_eq_ok success
    obtain ⟨brightness, isBrightness, success⟩ := exists_of_bind_eq_ok success
    cases success
    simp only [name, Bake.step, Bake.needBase, pure_bind, Pipeline.applyStage, signedOperand_storedOperand,
      number_of_intOr isLevel, number_of_intOr isBrightness]
  case h_13 name | h_14 name =>
    -- multiply, screen
    obtain ⟨_, _, success⟩ := exists_of_bind_eq_ok success
    obtain ⟨a, found, success⟩ := exists_of_bind_eq_ok success
    obtain ⟨color, isColor, success⟩ := exists_of_bind_eq_ok success
    cases success
    simp only [name, Bake.step, Bake.needBase, pure_bind, Pipeline.applyStage,
      color_of_colorOf (arg?_of_required found) isColor]
  case h_15 name =>
    -- colorize
    obtain ⟨_, _, success⟩ := exists_of_bind_eq_ok success
    obtain ⟨a, found, success⟩ := exists_of_bind_eq_ok success
    obtain ⟨color, isColor, success⟩ := exists_of_bind_eq_ok success
    obtain ⟨ratio, isRatio, success⟩ := exists_of_bind_eq_ok success
    cases success
    simp only [name, Bake.step, Bake.needBase, pure_bind, Pipeline.applyStage, toUInt32_byteOf,
      number_of_intOr isRatio, color_of_colorOf (arg?_of_required found) isColor]
  case h_16 name =>
    -- anim
    obtain ⟨_, _, success⟩ := exists_of_bind_eq_ok success
    obtain ⟨params, areParams, success⟩ := exists_of_bind_eq_ok success
    cases success
    simp only [name, Bake.step, Bake.needBase, pure_bind, Pipeline.applyStage, Pipeline.animated,
      frames_of_animationOf areParams]
  case h_17 => cases success

theorem coordinate_of_coordinateOf {s : Setting} {a : Arg} {c : UInt16} (success : coordinateOf a = .ok c) :
    ∃ v, a.value.meaning s = .number v ∧ c.toNat = v.toNat := by
  obtain ⟨v, isInt, success⟩ := exists_of_bind_eq_ok success
  refine ⟨v, by rw [value_of_intOf isInt, Value.meaning], ?_⟩
  split at success
  · cases success
    exact toNat_toUInt16_of_le (by omega)
  · cases success

/-- The insets that arguments are read as are laid on a canvas as the arguments are. -/
theorem placeInsets_of_insetsOf {s : Setting} {room : Nat} (args : List Arg) (done : Array (Bytecode.Inset Piece)) :
    ∀ {insets : List (Bytecode.Inset Piece)}, insetsOf room args done = .ok insets → args.length % 3 = 0 →
      ∃ added, insets = done.toList ++ added ∧ ∀ canvas, Bake.placeInsets (Piece.evaluate s) canvas added =
        Pipeline.laid s (args.map fun a => a.value.meaning s) canvas := by
  induction args, done using insetsOf.induct with
  | case1 done ax ay source rest ih =>
    intro insets success complete
    unfold insetsOf at success
    obtain ⟨x, isColumn, success⟩ := exists_of_bind_eq_ok success
    obtain ⟨y, isRow, success⟩ := exists_of_bind_eq_ok success
    obtain ⟨piece, isPiece, success⟩ := exists_of_bind_eq_ok success
    obtain ⟨column, columnMeant, columnStored⟩ := coordinate_of_coordinateOf (s := s) isColumn
    obtain ⟨row, rowMeant, rowStored⟩ := coordinate_of_coordinateOf (s := s) isRow
    obtain ⟨added, rfl, same⟩ := ih x y piece success (by simp only [List.length_cons] at complete; omega)
    refine ⟨⟨x, y, piece⟩ :: added, by simp, ?_⟩
    intro canvas
    simp only [Bake.placeInsets, List.foldlM_cons, List.map_cons, columnMeant, rowMeant, Pipeline.laid,
      evaluate_of_pieceOf isPiece, columnStored, rowStored, bind_assoc, pure_bind]
    simp only [← same, Bake.placeInsets]
  | case2 args done short =>
    intro insets success complete
    match args, short with
    | [], _ =>
      cases success
      exact ⟨[], by simp, fun canvas => rfl⟩
    | [_], _ => simp at complete
    | [_, _], _ => simp at complete
    | ax :: ay :: source :: rest, short => exact absurd rfl (short ax ay source rest)

theorem step_of_canvasInstr {s : Setting} {room position : Nat} {call : Call} {i : Bytecode.Instr Piece}
    {current : Option Image} (success : canvasInstr room call = .ok i) :
    Bake.step (Piece.evaluate s) s.seconds position i current =
      Pipeline.canvas s (call.args.map fun a => a.value.meaning s) := by
  unfold canvasInstr at success
  split at success
  · cases success
  · split at success
    · rename_i aw ah insets written
      split at success
      · cases success
      · rename_i complete
        obtain ⟨w, isWidth, success⟩ := exists_of_bind_eq_ok success
        obtain ⟨h, isHeight, success⟩ := exists_of_bind_eq_ok success
        split at success
        · cases success
        · obtain ⟨placed, areInsets, success⟩ := exists_of_bind_eq_ok success
          cases success
          obtain ⟨width, widthMeant, widthStored, widthPos⟩ := size_of_sideOf isWidth
          obtain ⟨height, heightMeant, heightStored, heightPos⟩ := size_of_sideOf isHeight
          obtain ⟨added, rfl, same⟩ := placeInsets_of_insetsOf (s := s) insets #[] areInsets (by omega)
          simp only [Bake.step, written, List.map_cons, widthMeant, heightMeant, Value.meaning, Pipeline.canvas,
            Pipeline.filled, checkNonempty_of_pos widthPos heightPos, pure_bind, bind_assoc, widthStored,
            heightStored, same]
    · cases success

/-- A base's instruction makes the image of the base. -/
theorem step_of_baseInstr {s : Setting} {room position : Nat} {base : Base} {i : Bytecode.Instr Piece}
    {current : Option Image} (success : baseInstr room base = .ok i) :
    Bake.step (Piece.evaluate s) s.seconds position i current = base.evaluate s := by
  cases base with
  | texture name offset =>
    cases success
    rw [Bake.step, Base.evaluate, Piece.evaluate]
  | fill width height color offset =>
    obtain ⟨w, isWidth, success⟩ := exists_of_bind_eq_ok success
    obtain ⟨h, isHeight, success⟩ := exists_of_bind_eq_ok success
    split at success
    · cases success
      obtain ⟨widthStored, widthPos⟩ := size_of_side isWidth
      obtain ⟨heightStored, heightPos⟩ := size_of_side isHeight
      simp only [Bake.step, Base.evaluate, Pipeline.filled, checkNonempty_of_pos widthPos heightPos, pure_bind, *,
        Option.getD_some]
    · cases success
  | sheet call =>
    obtain ⟨name, args, offset⟩ := call
    obtain ⟨_, _, success⟩ := exists_of_bind_eq_ok success
    split at success
    · cases success
    · obtain ⟨params, areParams, success⟩ := exists_of_bind_eq_ok success
      obtain ⟨piece, isPiece, success⟩ := exists_of_bind_eq_ok success
      cases success
      have source := image_of_pieceOf (s := s) ‹_› isPiece
      have shown := frames_of_animationOf (s := s) areParams
      simp only at source shown
      simp only [Bake.step, Base.evaluate, Pipeline.animated, source, shown]
  | canvas call =>
    obtain ⟨name, args, offset⟩ := call
    rw [step_of_canvasInstr success, Base.evaluate, Pipeline.read_eq_map, List.map_map]
    rfl

end Compile

end TextureLoom
