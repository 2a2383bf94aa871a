import TextureLoom.Proofs.Bytecode.Decoding

set_option autoImplicit false

namespace TextureLoom.Bytes

theorem ofLittleEndian_lt (bytes : List UInt8) : ofLittleEndian bytes < 256 ^ bytes.length := by
  induction bytes with
  | nil => exact Nat.zero_lt_one
  | cons b rest ih =>
    have small := b.toNat_lt
    rw [ofLittleEndian, List.length_cons, Nat.pow_succ]
    omega

/-- Bytes are those of the number that they make. -/
theorem littleEndian_ofLittleEndian (bytes : List UInt8) :
    littleEndian (ofLittleEndian bytes) bytes.length = bytes := by
  induction bytes with
  | nil => rfl
  | cons b rest ih =>
    have small := b.toNat_lt
    have low : (ofLittleEndian (b :: rest)).toUInt8 = b := by
      apply UInt8.toNat_inj.mp
      rw [ofLittleEndian, Nat.toUInt8_eq, UInt8.toNat_ofNat']
      omega
    have high : ofLittleEndian (b :: rest) / 256 = ofLittleEndian rest := by
      rw [ofLittleEndian]
      omega
    rw [List.length_cons, littleEndian, low, high, ih]

end TextureLoom.Bytes

namespace TextureLoom.Bytecode

open Encoding

namespace Reader

/-- A reader has taken `bytes` off the front of a window. -/
structure Took (w : Window) (bytes : List UInt8) (rest : Window) : Prop where
  front : w.bytes = bytes ++ rest.bytes
  position : rest.position = w.position + bytes.length

variable {α β : Type} {w middle rest : Window}

theorem Took.refl (w : Window) : Took w [] w := ⟨rfl, rfl⟩

theorem Took.trans {first second : List UInt8} (former : Took w first middle) (latter : Took middle second rest) :
    Took w (first ++ second) rest where
  front := by rw [former.front, latter.front, List.append_assoc]
  position := by rw [latter.position, former.position, List.length_append, Nat.add_assoc]

theorem exists_of_bind {first : Reader α} {next : α → Reader β} {b : β} (done : (first >>= next) w = .ok (b, rest)) :
    ∃ a middle, first w = .ok (a, middle) ∧ next a middle = .ok (b, rest) := by
  simp only [Bind.bind, StateT.bind, Except.bind] at done
  split at done
  · cases done
  · next result given => exact ⟨result.1, result.2, given, done⟩

theorem eq_of_pure {a b : α} (done : (pure a : Reader α) w = .ok (b, rest)) : b = a ∧ rest = w := by
  cases done
  exact ⟨rfl, rfl⟩

theorem took_number {count v : Nat} (done : number count w = .ok (v, rest)) :
    v < 256 ^ count ∧ Took w (Bytes.littleEndian v count) rest := by
  obtain ⟨taken, middle, took, done⟩ := exists_of_bind done
  obtain ⟨rfl, rfl⟩ := eq_of_pure done
  unfold take at took
  dsimp only at took
  split at took
  · cases took
  · next enough =>
    cases took
    have length : (w.bytes.take count).length = count := by
      rw [List.length_take] at enough ⊢
      omega
    have same := Bytes.littleEndian_ofLittleEndian (w.bytes.take count)
    have small := Bytes.ofLittleEndian_lt (w.bytes.take count)
    rw [length] at same small
    refine ⟨small, ?_⟩
    rw [same]
    exact ⟨(List.take_append_drop count w.bytes).symm, by rw [length]⟩

theorem took_byte {b : UInt8} (done : byte w = .ok (b, rest)) : Took w [b] rest := by
  obtain ⟨v, middle, given, done⟩ := exists_of_bind done
  obtain ⟨rfl, rfl⟩ := eq_of_pure done
  exact (took_number given).2

theorem took_word16 {v : UInt16} (done : Reader.word16 w = .ok (v, rest)) : Took w (Encoding.word16 v) rest := by
  obtain ⟨v, middle, given, done⟩ := exists_of_bind done
  obtain ⟨rfl, rfl⟩ := eq_of_pure done
  obtain ⟨small, took⟩ := took_number given
  rwa [Encoding.word16, Nat.toUInt16_eq, UInt16.toNat_ofNat', Nat.mod_eq_of_lt (by omega)]

theorem took_word32 {v : UInt32} (done : Reader.word32 w = .ok (v, rest)) : Took w (Encoding.word32 v) rest := by
  obtain ⟨v, middle, given, done⟩ := exists_of_bind done
  obtain ⟨rfl, rfl⟩ := eq_of_pure done
  obtain ⟨small, took⟩ := took_number given
  rwa [Encoding.word32, Nat.toUInt32_eq, UInt32.toNat_ofNat', Nat.mod_eq_of_lt (by omega)]

theorem took_operand {operand : Operand} (done : Reader.operand w = .ok (operand, rest)) :
    ∃ o : Origin, o.Fits ∧ operand = Operand.at w.position o ∧ Took w o.encode rest := by
  obtain ⟨start, _, here, done⟩ := exists_of_bind done
  cases here
  obtain ⟨kind, behind, given, done⟩ := exists_of_bind done
  have took := took_byte given
  split at done
  · next isTexture =>
    subst isTexture
    obtain ⟨id, last, number, done⟩ := exists_of_bind done
    obtain ⟨rfl, rfl⟩ := eq_of_pure done
    obtain ⟨small, tookId⟩ := took_number number
    exact ⟨.texture id, small, rfl, took.trans tookId⟩
  · split at done
    · next isBlock =>
      subst isBlock
      obtain ⟨offset, further, number, done⟩ := exists_of_bind done
      obtain ⟨length, last, other, done⟩ := exists_of_bind done
      obtain ⟨rfl, rfl⟩ := eq_of_pure done
      obtain ⟨smallOffset, tookOffset⟩ := took_number number
      obtain ⟨smallLength, tookLength⟩ := took_number other
      exact ⟨.block offset length, ⟨smallOffset, smallLength⟩, rfl,
        (took.trans tookOffset).trans tookLength⟩
    · cases done

theorem took_params {p : AnimParams} (done : Reader.params w = .ok (p, rest)) :
    Took w (Encoding.params p) rest := by
  obtain ⟨frameWidth, _, width, done⟩ := exists_of_bind done
  obtain ⟨frameHeight, _, height, done⟩ := exists_of_bind done
  obtain ⟨frames, _, count, done⟩ := exists_of_bind done
  obtain ⟨rate, _, speed, done⟩ := exists_of_bind done
  obtain ⟨flags, _, last, done⟩ := exists_of_bind done
  obtain ⟨rfl, rfl⟩ := eq_of_pure done
  have sizes := (took_word16 width).trans (took_word16 height)
  exact ((sizes.trans (took_word16 count)).trans (took_word16 speed)).trans (took_byte last)

theorem took_insets {count : Nat} {insets : List (Inset Operand)} :
    ∀ {w : Window}, Reader.insets count w = .ok (insets, rest) →
      ∃ placed : List (Inset Origin), placed.length = count ∧ (∀ p ∈ placed, p.source.Fits) ∧
        insets = Instr.place.placeInsets Origin.size Operand.at w.position #[] placed ∧
        Took w (placed.flatMap fun p => Encoding.word16 p.x ++ Encoding.word16 p.y ++ p.source.encode) rest := by
  induction count generalizing insets with
  | zero =>
    intro w done
    obtain ⟨rfl, rfl⟩ := eq_of_pure done
    exact ⟨[], rfl, by simp, rfl, .refl _⟩
  | succ count ih =>
    intro w done
    obtain ⟨x, _, left, done⟩ := exists_of_bind done
    obtain ⟨y, _, top, done⟩ := exists_of_bind done
    obtain ⟨operand, behind, source, done⟩ := exists_of_bind done
    obtain ⟨others, last, later, done⟩ := exists_of_bind done
    obtain ⟨rfl, rfl⟩ := eq_of_pure done
    obtain ⟨o, fits, rfl, tookSource⟩ := took_operand source
    have corner := (took_word16 left).trans (took_word16 top)
    have first := corner.trans tookSource
    obtain ⟨placed, rfl, fit, rfl, took⟩ := ih later
    refine ⟨⟨x, y, o⟩ :: placed, rfl, ?_, ?_, ?_⟩
    · simpa using ⟨fits, fit⟩
    · have behindFirst : behind.position = w.position + 4 + o.size := by
        rw [first.position]
        simp
        omega
      rw [Instr.placeInsets_cons, behindFirst, corner.position]
      rfl
    · exact first.trans took

theorem Instr.fits_of_sources {i : Instr Origin} {o : Origin} (only : i.sources = [o]) (fits : o.Fits) : i.Fits where
  sources := by simpa [only] using fits
  count := by simp [only]

theorem Instr.fits_of_no_sources {i : Instr Origin} (none : i.sources = []) : i.Fits where
  sources := by simp [none]
  count := by simp [none]

/-- What follows an opcode is read from the bytes that it is encoded as. -/
theorem took_body {start : Nat} {code : UInt8} {i : Instr Operand} (begins : w.position = start + 1)
    (done : body start code w = .ok (i, rest)) :
    ∃ (o : Instr Origin) (tail : List UInt8), o.Fits ∧ i = o.place Origin.size Operand.at start ∧
      o.encode = code :: tail ∧ Took w tail rest := by
  generalize opened : body start code = reader at done
  unfold body at opened
  split at opened <;> subst opened
  case h_1 opcode =>
    obtain rfl : code = 1 := UInt8.toNat_inj.mp opcode
    obtain ⟨source, _, read, done⟩ := exists_of_bind done
    obtain ⟨rfl, rfl⟩ := eq_of_pure done
    obtain ⟨o, fits, rfl, took⟩ := took_operand read
    exact ⟨.texture o, _, Instr.fits_of_sources rfl fits, by rw [begins]; rfl, rfl, took⟩
  case h_2 opcode =>
    obtain rfl : code = 2 := UInt8.toNat_inj.mp opcode
    obtain ⟨width, _, widthRead, done⟩ := exists_of_bind done
    obtain ⟨height, _, heightRead, done⟩ := exists_of_bind done
    obtain ⟨color, _, colorRead, done⟩ := exists_of_bind done
    obtain ⟨rfl, rfl⟩ := eq_of_pure done
    exact ⟨.fill width height color, _, Instr.fits_of_no_sources rfl, rfl, rfl,
      ((took_word16 widthRead).trans (took_word16 heightRead)).trans (took_word32 colorRead)⟩
  case h_3 opcode =>
    obtain rfl : code = 3 := UInt8.toNat_inj.mp opcode
    obtain ⟨source, _, read, done⟩ := exists_of_bind done
    obtain ⟨params, _, paramsRead, done⟩ := exists_of_bind done
    obtain ⟨rfl, rfl⟩ := eq_of_pure done
    obtain ⟨o, fits, rfl, took⟩ := took_operand read
    exact ⟨.sheet o params, _, Instr.fits_of_sources rfl fits, by rw [begins]; rfl, rfl,
      took.trans (took_params paramsRead)⟩
  case h_4 opcode =>
    obtain rfl : code = 10 := UInt8.toNat_inj.mp opcode
    obtain ⟨width, _, widthRead, done⟩ := exists_of_bind done
    obtain ⟨height, _, heightRead, done⟩ := exists_of_bind done
    obtain ⟨rfl, rfl⟩ := eq_of_pure done
    exact ⟨.resize width height, _, Instr.fits_of_no_sources rfl, rfl, rfl,
      (took_word16 widthRead).trans (took_word16 heightRead)⟩
  case h_5 opcode =>
    obtain rfl : code = 11 := UInt8.toNat_inj.mp opcode
    obtain ⟨mode, _, modeRead, done⟩ := exists_of_bind done
    obtain ⟨rfl, rfl⟩ := eq_of_pure done
    exact ⟨.transform mode, _, Instr.fits_of_no_sources rfl, rfl, rfl, took_byte modeRead⟩
  case h_6 opcode =>
    obtain rfl : code = 12 := UInt8.toNat_inj.mp opcode
    obtain ⟨alpha, _, alphaRead, done⟩ := exists_of_bind done
    obtain ⟨rfl, rfl⟩ := eq_of_pure done
    exact ⟨.opacity alpha, _, Instr.fits_of_no_sources rfl, rfl, rfl, took_byte alphaRead⟩
  case h_7 opcode =>
    obtain rfl : code = 13 := UInt8.toNat_inj.mp opcode
    obtain ⟨rfl, rfl⟩ := eq_of_pure done
    exact ⟨.dropAlpha, _, Instr.fits_of_no_sources rfl, rfl, rfl, .refl _⟩
  case h_8 opcode =>
    obtain rfl : code = 14 := UInt8.toNat_inj.mp opcode
    obtain ⟨red, _, redRead, done⟩ := exists_of_bind done
    obtain ⟨green, _, greenRead, done⟩ := exists_of_bind done
    obtain ⟨blue, _, blueRead, done⟩ := exists_of_bind done
    obtain ⟨rfl, rfl⟩ := eq_of_pure done
    exact ⟨.keyColor red green blue, _, Instr.fits_of_no_sources rfl, rfl, rfl,
      ((took_byte redRead).trans (took_byte greenRead)).trans (took_byte blueRead)⟩
  case h_9 opcode =>
    obtain rfl : code = 15 := UInt8.toNat_inj.mp opcode
    obtain ⟨channels, _, channelsRead, done⟩ := exists_of_bind done
    obtain ⟨rfl, rfl⟩ := eq_of_pure done
    exact ⟨.invert channels, _, Instr.fits_of_no_sources rfl, rfl, rfl, took_byte channelsRead⟩
  case h_10 opcode =>
    obtain rfl : code = 16 := UInt8.toNat_inj.mp opcode
    obtain ⟨rfl, rfl⟩ := eq_of_pure done
    exact ⟨.brighten, _, Instr.fits_of_no_sources rfl, rfl, rfl, .refl _⟩
  case h_11 opcode =>
    obtain rfl : code = 17 := UInt8.toNat_inj.mp opcode
    obtain ⟨level, _, levelRead, done⟩ := exists_of_bind done
    obtain ⟨brightness, _, brightnessRead, done⟩ := exists_of_bind done
    obtain ⟨rfl, rfl⟩ := eq_of_pure done
    exact ⟨.contrast level brightness, _, Instr.fits_of_no_sources rfl, rfl, rfl,
      (took_byte levelRead).trans (took_byte brightnessRead)⟩
  case h_12 opcode =>
    obtain rfl : code = 18 := UInt8.toNat_inj.mp opcode
    obtain ⟨color, _, colorRead, done⟩ := exists_of_bind done
    obtain ⟨rfl, rfl⟩ := eq_of_pure done
    exact ⟨.multiply color, _, Instr.fits_of_no_sources rfl, rfl, rfl, took_word32 colorRead⟩
  case h_13 opcode =>
    obtain rfl : code = 19 := UInt8.toNat_inj.mp opcode
    obtain ⟨color, _, colorRead, done⟩ := exists_of_bind done
    obtain ⟨rfl, rfl⟩ := eq_of_pure done
    exact ⟨.screen color, _, Instr.fits_of_no_sources rfl, rfl, rfl, took_word32 colorRead⟩
  case h_14 opcode =>
    obtain rfl : code = 20 := UInt8.toNat_inj.mp opcode
    obtain ⟨color, _, colorRead, done⟩ := exists_of_bind done
    obtain ⟨ratio, _, ratioRead, done⟩ := exists_of_bind done
    obtain ⟨rfl, rfl⟩ := eq_of_pure done
    exact ⟨.colorize color ratio, _, Instr.fits_of_no_sources rfl, rfl, rfl,
      (took_word32 colorRead).trans (took_byte ratioRead)⟩
  case h_15 opcode =>
    obtain rfl : code = 21 := UInt8.toNat_inj.mp opcode
    obtain ⟨params, _, paramsRead, done⟩ := exists_of_bind done
    obtain ⟨rfl, rfl⟩ := eq_of_pure done
    exact ⟨.animate params, _, Instr.fits_of_no_sources rfl, rfl, rfl, took_params paramsRead⟩
  case h_16 opcode =>
    obtain rfl : code = 30 := UInt8.toNat_inj.mp opcode
    obtain ⟨source, _, read, done⟩ := exists_of_bind done
    obtain ⟨rfl, rfl⟩ := eq_of_pure done
    obtain ⟨o, fits, rfl, took⟩ := took_operand read
    exact ⟨.overlay o, _, Instr.fits_of_sources rfl fits, by rw [begins]; rfl, rfl, took⟩
  case h_17 opcode =>
    obtain rfl : code = 31 := UInt8.toNat_inj.mp opcode
    obtain ⟨source, _, read, done⟩ := exists_of_bind done
    obtain ⟨rfl, rfl⟩ := eq_of_pure done
    obtain ⟨o, fits, rfl, took⟩ := took_operand read
    exact ⟨.mask o, _, Instr.fits_of_sources rfl fits, by rw [begins]; rfl, rfl, took⟩
  case h_18 opcode =>
    obtain rfl : code = 32 := UInt8.toNat_inj.mp opcode
    obtain ⟨percent, _, percentRead, done⟩ := exists_of_bind done
    obtain ⟨source, _, read, done⟩ := exists_of_bind done
    obtain ⟨rfl, rfl⟩ := eq_of_pure done
    have tookPercent := took_byte percentRead
    obtain ⟨o, fits, rfl, took⟩ := took_operand read
    exact ⟨.lowPart percent o, _, Instr.fits_of_sources rfl fits, by rw [tookPercent.position, begins]; rfl, rfl,
      tookPercent.trans took⟩
  case h_19 opcode =>
    obtain rfl : code = 40 := UInt8.toNat_inj.mp opcode
    obtain ⟨width, _, widthRead, done⟩ := exists_of_bind done
    obtain ⟨height, _, heightRead, done⟩ := exists_of_bind done
    obtain ⟨count, _, countRead, done⟩ := exists_of_bind done
    obtain ⟨operands, _, read, done⟩ := exists_of_bind done
    obtain ⟨rfl, rfl⟩ := eq_of_pure done
    obtain ⟨small, tookCount⟩ := took_number countRead
    have head := ((took_word16 widthRead).trans (took_word16 heightRead)).trans tookCount
    obtain ⟨placed, rfl, fits, rfl, took⟩ := took_insets read
    refine ⟨.combine width height placed, _, ⟨?_, by simpa [Instr.sources] using small⟩, ?_, rfl, head.trans took⟩
    · simpa [Instr.sources] using fits
    · rw [head.position, begins]
      simp [Instr.place, Bytes.littleEndian_length, Nat.add_assoc]
  case h_20 => cases done

/-- An instruction is read from the bytes that it is encoded as. -/
theorem took_instr {i : Instr Operand} (done : instr w = .ok (some i, rest)) :
    ∃ o : Instr Origin, o.Fits ∧ i = o.place Origin.size Operand.at w.position ∧ Took w o.encode rest := by
  obtain ⟨start, _, here, done⟩ := exists_of_bind done
  cases here
  obtain ⟨code, behind, read, done⟩ := exists_of_bind done
  have first := took_byte read
  split at done
  · cases done
  · obtain ⟨found, last, bodyRead, done⟩ := exists_of_bind done
    obtain ⟨same, rfl⟩ := eq_of_pure done
    cases same
    obtain ⟨o, tail, fits, rfl, encoded, took⟩ := took_body first.position bodyRead
    refine ⟨o, fits, rfl, ?_⟩
    rw [encoded]
    exact first.trans took

theorem took_finish (done : instr w = .ok (none, rest)) : Took w [finishCode] rest := by
  obtain ⟨start, _, here, done⟩ := exists_of_bind done
  cases here
  obtain ⟨code, behind, read, done⟩ := exists_of_bind done
  split at done
  · next ends =>
    obtain ⟨-, rfl⟩ := eq_of_pure done
    exact ends ▸ took_byte read
  · obtain ⟨found, last, bodyRead, done⟩ := exists_of_bind done
    cases done

end Reader

open Instr (encode)

theorem Block.exists_of_read {turns stop : Nat} : ∀ {done : Array Located} {w : Window},
    (Block.read turns done w).finish = .ok stop → ∃ (instrs : List (Instr Origin)) (after : List UInt8),
      (∀ i ∈ instrs, i.Fits) ∧ w.bytes = instrs.flatMap encode ++ finishCode :: after ∧
        stop = w.position + (instrs.flatMap encode).length ∧
        (Block.read turns done w).instrs = done.toList ++ locate w.position instrs := by
  induction turns with
  | zero => exact fun ends => nomatch ends
  | succ turns ih =>
    intro done w ends
    rw [Block.read] at ends ⊢
    split at ends
    · cases ends
    · next rest read =>
      cases ends
      have took := Reader.took_finish read
      exact ⟨[], rest.bytes, by simp, took.front, rfl, by simp [locate]⟩
    · next i rest read =>
      obtain ⟨o, fits, rfl, took⟩ := Reader.took_instr read
      obtain ⟨instrs, after, allFit, holds, rfl, located⟩ := ih ends
      refine ⟨o :: instrs, after, ?_, ?_, ?_, ?_⟩
      · simpa using ⟨fits, allFit⟩
      · rw [took.front, holds, List.flatMap_cons, List.append_assoc]
      · rw [took.position, List.flatMap_cons, List.length_append, Nat.add_assoc]
      · simp only [located, took.position, Array.toList_push, List.append_assoc, List.singleton_append, locate]

/-- A block that can be decoded is that of the instructions that its bytes encode. -/
theorem Block.exists_of_finish {code : Array UInt8} {start stop finish : Nat}
    (ends : (Block.of code start stop).finish = .ok finish) :
    ∃ (before : List UInt8) (instrs : List (Instr Origin)) (after : List UInt8), before.length = start ∧
      (∀ i ∈ instrs, i.Fits) ∧ code.toList = before ++ (instrs.flatMap encode ++ finishCode :: after) ∧
      finish = start + (instrs.flatMap encode).length ∧ finish < stop ∧
      Block.of code start stop = ⟨locate start instrs, .ok finish⟩ := by
  obtain ⟨instrs, after, fits, holds, finishes, -⟩ := Block.exists_of_read ends
  simp only [Window.of] at holds finishes
  have length := congrArg List.length holds
  simp only [Array.length_toList, Array.size_extract, List.length_append, List.length_cons] at length
  have inside : start < min stop code.size := by omega
  rw [Nat.min_eq_left (Nat.le_of_lt inside)] at holds finishes length
  have size : (code.toList.take start).length = start := by
    rw [List.length_take, Array.length_toList]
    omega
  have whole : code.toList = code.toList.take start ++ (instrs.flatMap encode ++ finishCode ::
      (after ++ code.toList.drop (min stop code.size))) := by
    have front := List.take_append_drop start code.toList
    have back := List.take_append_drop (min stop code.size - start) (code.toList.drop start)
    rw [List.drop_drop, Nat.add_sub_cancel' (Nat.le_of_lt inside)] at back
    rw [Array.toList_extract, List.extract_eq_take_drop] at holds
    rw [holds, List.append_assoc, List.cons_append] at back
    rw [back, front]
  have stops : finish < stop := by omega
  refine ⟨_, instrs, _, size, fits, whole, finishes, stops, ?_⟩
  have decoded := Block.of_encode fits whole (show _ < stop by omega)
  rwa [size, ← finishes] at decoded

end TextureLoom.Bytecode
