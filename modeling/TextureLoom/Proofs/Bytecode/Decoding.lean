import TextureLoom.Bytecode.Block
import TextureLoom.Proofs.Bytecode.Parts

set_option autoImplicit false

namespace TextureLoom.Bytecode

open Encoding Instr

/-- The operand can be written in its fields. -/
def Origin.Fits : Origin → Prop
  | .texture id => id < limit24
  | .block offset length => offset < limit24 ∧ length < limit24

/-- Bytes of an operand. -/
def Origin.size : Origin → Nat
  | .texture _ => 4
  | .block .. => 7

@[simp] theorem Origin.encode_length (o : Origin) : o.encode.length = o.size := by
  cases o <;> simp [Origin.encode, Origin.size]

/-- The operands of an instruction fit their fields, and so does their number. -/
structure Instr.Fits (i : Instr Origin) : Prop where
  sources : ∀ o ∈ i.sources, o.Fits
  count : i.sources.length < 65536

/-- An operand as it is read at the offset of its kind byte. -/
def Operand.at (start : Nat) (o : Origin) : Operand := ⟨start + 1, o⟩

namespace Reader

/-- At an offset, `reader` takes exactly `bytes` and gives `value`. -/
def Takes {α : Type} (reader : Reader α) (start : Nat) (bytes : List UInt8) (value : α) : Prop :=
  ∀ rest, reader ⟨start, bytes ++ rest⟩ = .ok (value, ⟨start + bytes.length, rest⟩)

variable {α β : Type} {start : Nat}

theorem takes_pure (value : α) : Takes (pure value) start [] value := fun _ => rfl

theorem Takes.bind {reader : Reader α} {next : α → Reader β} {first second : List UInt8} {a : α} {b : β}
    (takesFirst : Takes reader start first a) (takesSecond : Takes (next a) (start + first.length) second b) :
    Takes (reader >>= next) start (first ++ second) b := by
  intro rest
  have split := takesFirst (second ++ rest)
  have behind := takesSecond rest
  rw [List.append_assoc]
  simp only [Bind.bind, StateT.bind, Except.bind, split, behind, List.length_append, Nat.add_assoc]

/-- A last step that only builds a value. -/
theorem Takes.map {reader : Reader α} {bytes : List UInt8} {a : α} (f : α → β) (takes : Takes reader start bytes a) :
    Takes (do pure (f (← reader))) start bytes (f a) := by
  have whole : Takes (reader >>= fun a => pure (f a)) start (bytes ++ []) (f a) := takes.bind (takes_pure (f a))
  rwa [List.append_nil] at whole

theorem takes_position_bind {next : Nat → Reader β} {bytes : List UInt8} {b : β}
    (takes : Takes (next start) start bytes b) : Takes (position >>= next) start bytes b := takes

theorem takes_take (start : Nat) (bytes : List UInt8) : Takes (take bytes.length) start bytes bytes := by
  intro rest
  simp [take]

theorem takes_number (start value count : Nat) (fits : value < 256 ^ count) :
    Takes (number count) start (Bytes.littleEndian value count) value := by
  have taken := (takes_take start (Bytes.littleEndian value count)).map Bytes.ofLittleEndian
  rwa [Bytes.littleEndian_length, Bytes.ofLittleEndian_littleEndian count fits] at taken

theorem takes_byte (b : UInt8) : Takes byte start [b] b := by
  have taken := (takes_number start b.toNat 1 b.toNat_lt).map Nat.toUInt8
  simp only [Bytes.littleEndian, Nat.toUInt8_eq, UInt8.ofNat_toNat] at taken
  exact taken

theorem takes_word16 (v : UInt16) : Takes word16 start (Encoding.word16 v) v := by
  have taken := (takes_number start v.toNat 2 v.toNat_lt).map Nat.toUInt16
  simp only [Nat.toUInt16_eq, UInt16.ofNat_toNat] at taken
  exact taken

theorem takes_word32 (v : UInt32) : Takes word32 start (Encoding.word32 v) v := by
  have taken := (takes_number start v.toNat 4 v.toNat_lt).map Nat.toUInt32
  simp only [Nat.toUInt32_eq, UInt32.ofNat_toNat] at taken
  exact taken

theorem takes_operand (start : Nat) {o : Origin} (fits : o.Fits) :
    Takes operand start o.encode (Operand.at start o) := by
  apply takes_position_bind
  cases o with
  | texture id =>
    apply Takes.bind (takes_byte 0)
    exact (takes_number _ id 3 fits).map fun id => (⟨start + 1, .texture id⟩ : Operand)
  | block offset length =>
    rw [Origin.encode, ← List.singleton_append, List.append_assoc]
    apply Takes.bind (takes_byte 1)
    apply Takes.bind (takes_number _ offset 3 fits.1)
    exact (takes_number _ length 3 fits.2).map fun length => (⟨start + 1, .block offset length⟩ : Operand)

theorem takes_params (p : AnimParams) : Takes params start (Encoding.params p) p := by
  unfold Encoding.params
  simp only [List.append_assoc]
  refine (takes_word16 _).bind ((takes_word16 _).bind ((takes_word16 _).bind ((takes_word16 _).bind ?_)))
  exact (takes_byte p.flags).map fun flags =>
    (⟨p.frameWidth, p.frameHeight, p.frames, p.rate, flags⟩ : AnimParams)

theorem takes_insets (placed : List (Inset Origin)) (fits : ∀ p ∈ placed, p.source.Fits) (start : Nat) :
    Takes (insets placed.length) start
      (placed.flatMap fun p => Encoding.word16 p.x ++ Encoding.word16 p.y ++ p.source.encode)
      (place.placeInsets Origin.size Operand.at start #[] placed) := by
  induction placed generalizing start with
  | nil => exact takes_pure []
  | cons p rest ih =>
    rw [List.flatMap_cons, placeInsets_cons, List.length_cons, insets, List.append_assoc, List.append_assoc]
    have first := takes_operand (start + 4) (fits p (by simp))
    have behind := ih (fun q member => fits q (by simp [member])) (start + 4 + p.source.size)
    refine (takes_word16 _).bind ((takes_word16 _).bind (first.bind ?_))
    apply Takes.map _
    simpa [Nat.add_assoc] using behind

/-- The bytes of an instruction behind its opcode. -/
theorem takes_body (start : Nat) {i : Instr Origin} (fits : i.Fits) :
    ∃ code tail, i.encode = code :: tail ∧ code ≠ finishCode ∧
      Takes (body start code) (start + 1) tail (i.place Origin.size Operand.at start) := by
  cases i with
  | texture s =>
    refine ⟨1, s.encode, rfl, by decide, ?_⟩
    exact (takes_operand _ (fits.sources s (by simp [sources]))).map Instr.texture
  | fill w h c =>
    refine ⟨2, Encoding.word16 w ++ Encoding.word16 h ++ Encoding.word32 c, rfl, by decide, ?_⟩
    rw [List.append_assoc]
    refine (takes_word16 w).bind ((takes_word16 h).bind ?_)
    exact (takes_word32 c).map (Instr.fill w h)
  | sheet s p =>
    refine ⟨3, s.encode ++ Encoding.params p, rfl, by decide, ?_⟩
    apply (takes_operand _ (fits.sources s (by simp [sources]))).bind
    exact (takes_params p).map (Instr.sheet _)
  | resize w h =>
    refine ⟨10, Encoding.word16 w ++ Encoding.word16 h, rfl, by decide, ?_⟩
    exact (takes_word16 w).bind ((takes_word16 h).map (Instr.resize w))
  | transform t => exact ⟨11, [t], rfl, by decide, (takes_byte t).map Instr.transform⟩
  | opacity a => exact ⟨12, [a], rfl, by decide, (takes_byte a).map Instr.opacity⟩
  | dropAlpha => exact ⟨13, [], rfl, by decide, takes_pure _⟩
  | keyColor r g b =>
    refine ⟨14, [r] ++ ([g] ++ [b]), rfl, by decide, ?_⟩
    exact (takes_byte r).bind ((takes_byte g).bind ((takes_byte b).map (Instr.keyColor r g)))
  | invert m => exact ⟨15, [m], rfl, by decide, (takes_byte m).map Instr.invert⟩
  | brighten => exact ⟨16, [], rfl, by decide, takes_pure _⟩
  | contrast c b =>
    exact ⟨17, [c] ++ [b], rfl, by decide, (takes_byte c).bind ((takes_byte b).map (Instr.contrast c))⟩
  | multiply c => exact ⟨18, Encoding.word32 c, rfl, by decide, (takes_word32 c).map Instr.multiply⟩
  | screen c => exact ⟨19, Encoding.word32 c, rfl, by decide, (takes_word32 c).map Instr.screen⟩
  | colorize c r =>
    exact ⟨20, Encoding.word32 c ++ [r], rfl, by decide, (takes_word32 c).bind ((takes_byte r).map (Instr.colorize c))⟩
  | animate p => exact ⟨21, Encoding.params p, rfl, by decide, (takes_params p).map Instr.animate⟩
  | overlay s =>
    exact ⟨30, s.encode, rfl, by decide, (takes_operand _ (fits.sources s (by simp [sources]))).map Instr.overlay⟩
  | mask s =>
    exact ⟨31, s.encode, rfl, by decide, (takes_operand _ (fits.sources s (by simp [sources]))).map Instr.mask⟩
  | lowPart p s =>
    refine ⟨32, [p] ++ s.encode, rfl, by decide, ?_⟩
    exact (takes_byte p).bind ((takes_operand _ (fits.sources s (by simp [sources]))).map (Instr.lowPart p))
  | combine w h placed =>
    refine ⟨40, Encoding.word16 w ++ (Encoding.word16 h ++ (Bytes.littleEndian placed.length 2 ++
      placed.flatMap fun p => Encoding.word16 p.x ++ Encoding.word16 p.y ++ p.source.encode)),
      by simp [encode], by decide, ?_⟩
    have few : placed.length < 256 ^ 2 := by
      have count := fits.count
      simpa [sources] using count
    refine (takes_word16 w).bind ((takes_word16 h).bind ((takes_number _ placed.length 2 few).bind ?_))
    have all := takes_insets placed (fun p member =>
      fits.sources p.source (by simpa [sources] using ⟨p, member, rfl⟩)) (start + 7)
    apply Takes.map _
    simpa [Bytes.littleEndian_length, Nat.add_assoc] using all

/-- Reading an encoded instruction gives it back, each operand with the offset of its number. -/
theorem takes_instr (start : Nat) {i : Instr Origin} (fits : i.Fits) :
    Takes instr start i.encode (some (i.place Origin.size Operand.at start)) := by
  obtain ⟨code, tail, encoded, goesOn, takes⟩ := takes_body start fits
  rw [encoded]
  apply takes_position_bind
  apply Takes.bind (takes_byte code)
  rw [if_neg goesOn]
  exact takes.map some

theorem takes_finish (start : Nat) : Takes instr start [finishCode] none := by
  apply takes_position_bind
  exact (takes_byte finishCode).bind (takes_pure none)

end Reader

/-- Encoded instructions one behind the other as they are read from `start` on. -/
def locate : Nat → List (Instr Origin) → List Located
  | _, [] => []
  | start, i :: rest => ⟨start, i.place Origin.size Operand.at start⟩ :: locate (start + i.encode.length) rest

/-- The operands of an instruction keep their origins when they are placed. -/
theorem Stretch.place_map_origin (parts : List (Stretch Origin)) :
    ∀ start, (Stretch.place Origin.size Operand.at start parts).map (·.origin) = parts.filterMap Stretch.operand? := by
  induction parts with
  | nil => exact fun _ => rfl
  | cons part rest ih =>
    intro start
    cases part with
    | bytes run => exact ih (start + run.length)
    | operand source => exact congrArg (List.cons source) (ih (start + source.size))

theorem Block.read_encode (instrs : List (Instr Origin)) (fits : ∀ i ∈ instrs, i.Fits) (start turns : Nat)
    (done : Array Located) (after : List UInt8) (enough : instrs.length < turns) :
    Block.read turns done ⟨start, instrs.flatMap encode ++ finishCode :: after⟩ =
      ⟨done.toList ++ locate start instrs, .ok (start + (instrs.flatMap encode).length)⟩ := by
  induction instrs generalizing start turns done with
  | nil =>
    obtain ⟨turns, rfl⟩ := Nat.exists_eq_succ_of_ne_zero (show turns ≠ 0 by omega)
    have finish := Reader.takes_finish start after
    rw [List.singleton_append] at finish
    simp only [List.flatMap_nil, List.nil_append, Block.read, StateT.run, finish, locate, List.append_nil,
      List.length_nil, Nat.add_zero]
  | cons i rest ih =>
    obtain ⟨turns, rfl⟩ := Nat.exists_eq_succ_of_ne_zero (show turns ≠ 0 by omega)
    have first := Reader.takes_instr start (fits i (by simp)) (rest.flatMap encode ++ finishCode :: after)
    have behind := ih (fun j member => fits j (by simp [member])) (start + i.encode.length) turns
      (done.push ⟨start, i.place Origin.size Operand.at start⟩)
      (by simp only [List.length_cons] at enough; omega)
    rw [List.flatMap_cons, List.append_assoc]
    simp only [Block.read, StateT.run, first, behind, locate]
    simp [Nat.add_assoc]

theorem encode_ne_nil (i : Instr Origin) : i.encode ≠ [] := by
  cases i <;> simp [encode]

theorem length_le_flatMap_encode (instrs : List (Instr Origin)) :
    instrs.length ≤ (instrs.flatMap encode).length := by
  induction instrs with
  | nil => exact Nat.le_refl 0
  | cons i rest ih =>
    have some := List.length_pos_iff.mpr (encode_ne_nil i)
    simp only [List.length_cons, List.flatMap_cons, List.length_append]
    omega

/-- Where a program holds the bytes of some instructions and an end, the block there has these instructions, however
far behind its end the window goes. -/
theorem Block.of_encode {code : Array UInt8} {before after : List UInt8} {instrs : List (Instr Origin)} {stop : Nat}
    (fits : ∀ i ∈ instrs, i.Fits) (holds : code.toList = before ++ (instrs.flatMap encode ++ finishCode :: after))
    (stops : before.length + (instrs.flatMap encode).length < stop) :
    Block.of code before.length stop =
      ⟨locate before.length instrs, .ok (before.length + (instrs.flatMap encode).length)⟩ := by
  have size : code.size = before.length + (instrs.flatMap encode).length + (after.length + 1) := by
    rw [← Array.length_toList, holds]
    simp only [List.length_append, List.length_cons]
    omega
  have window : ∃ rest, Window.of code before.length stop =
      ⟨before.length, instrs.flatMap encode ++ finishCode :: rest⟩ := by
    refine ⟨after.take (min stop code.size - before.length - (instrs.flatMap encode).length - 1), ?_⟩
    simp only [Window.of, show min before.length (min stop code.size) = before.length by omega]
    congr 1
    rw [Array.toList_extract, List.extract_eq_take_drop, holds, List.drop_left, List.take_append,
      List.take_of_length_le (by omega), List.take_cons (by omega)]
  obtain ⟨rest, window⟩ := window
  unfold Block.of
  simp only [window]
  rw [Block.read_encode instrs fits]
  · simp
  · have enough := length_le_flatMap_encode instrs
    simp only [List.length_append, List.length_cons]
    omega

end TextureLoom.Bytecode
