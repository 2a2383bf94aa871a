import TextureLoom.Bytecode.Encoding

set_option autoImplicit false

namespace TextureLoom.Bytecode

/-- Why bytes are not an instruction. -/
inductive DecodeError where
  | truncated (position : Nat)
  | unknownOpcode (code : UInt8) (position : Nat)
  | unknownSourceKind (code : UInt8) (position : Nat)
deriving DecidableEq, Repr

def DecodeError.message : DecodeError → String
  | .truncated position => s!"bytecode truncated at byte {position}"
  | .unknownOpcode code position => s!"unknown opcode {code.toNat} at byte {position}"
  | .unknownSourceKind code position => s!"unknown source kind {code.toNat} at byte {position}"

/-- The bytes of a window from `position` on. -/
structure Window where
  position : Nat
  bytes : List UInt8

/-- The bytes `start` to `stop` of a program, as far as it has them. -/
def Window.of (code : Array UInt8) (start stop : Nat) : Window :=
  let stop := min stop code.size
  let start := min start stop
  ⟨start, (code.extract start stop).toList⟩

abbrev Reader := StateT Window (Except DecodeError)

namespace Reader

def position : Reader Nat := fun w => .ok (w.position, w)

def fail {α : Type} (e : DecodeError) : Reader α := fun _ => .error e

/-- The next `count` bytes, all of them inside the window. -/
def take (count : Nat) : Reader (List UInt8) := fun w =>
  let taken := w.bytes.take count
  if taken.length < count then .error (.truncated w.position)
  else .ok (taken, ⟨w.position + count, w.bytes.drop count⟩)

/-- A number of `count` bytes, least significant first. -/
def number (count : Nat) : Reader Nat := do
  pure (Bytes.ofLittleEndian (← take count))

def byte : Reader UInt8 := do pure (← number 1).toUInt8
def word16 : Reader UInt16 := do pure (← number 2).toUInt16
def word32 : Reader UInt32 := do pure (← number 4).toUInt32

/-- An image operand. -/
def operand : Reader Operand := do
  let start ← position
  let kind ← byte
  if kind = 0 then
    pure ⟨start + 1, .texture (← number 3)⟩
  else if kind = 1 then
    let offset ← number 3
    pure ⟨start + 1, .block offset (← number 3)⟩
  else fail (.unknownSourceKind kind start)

def params : Reader AnimParams := do
  let frameWidth ← word16
  let frameHeight ← word16
  let frames ← word16
  let rate ← word16
  pure ⟨frameWidth, frameHeight, frames, rate, ← byte⟩

def insets : Nat → Reader (List (Inset Operand))
  | 0 => pure []
  | count + 1 => do
    let x ← word16
    let y ← word16
    let first : Inset Operand := ⟨x, y, ← operand⟩
    pure (first :: (← insets count))

/-- The operands of the instruction with opcode `code`, which stands at `start`. -/
def body (start : Nat) (code : UInt8) : Reader (Instr Operand) := do
  match code.toNat with
  | 1 => pure (.texture (← operand))
  | 2 =>
    let w ← word16
    let h ← word16
    pure (.fill w h (← word32))
  | 3 =>
    let source ← operand
    pure (.sheet source (← params))
  | 10 =>
    let w ← word16
    pure (.resize w (← word16))
  | 11 => pure (.transform (← byte))
  | 12 => pure (.opacity (← byte))
  | 13 => pure .dropAlpha
  | 14 =>
    let r ← byte
    let g ← byte
    pure (.keyColor r g (← byte))
  | 15 => pure (.invert (← byte))
  | 16 => pure .brighten
  | 17 =>
    let level ← byte
    pure (.contrast level (← byte))
  | 18 => pure (.multiply (← word32))
  | 19 => pure (.screen (← word32))
  | 20 =>
    let color ← word32
    pure (.colorize color (← byte))
  | 21 => pure (.animate (← params))
  | 30 => pure (.overlay (← operand))
  | 31 => pure (.mask (← operand))
  | 32 =>
    let percent ← byte
    pure (.lowPart percent (← operand))
  | 40 =>
    let w ← word16
    let h ← word16
    let count ← number 2
    pure (.combine w h (← insets count))
  | _ => fail (.unknownOpcode code start)

/-- The next instruction, or nothing at the byte that ends a block. -/
def instr : Reader (Option (Instr Operand)) := do
  let start ← position
  let code ← byte
  if code = finishCode then pure none else pure (some (← body start code))

end Reader

/-- An instruction and where it starts. -/
structure Located where
  position : Nat
  instr : Instr Operand
deriving DecidableEq, Repr

/-- The instructions of a window up to the byte that ends the block: that byte's position, or why there is
none to be reached. -/
structure Block where
  instrs : List Located
  finish : Except DecodeError Nat

/-- The block at the front of a window, behind the instructions already read; `turns` is at least the number of
bytes left. -/
def Block.read : Nat → Array Located → Window → Block
  | 0, done, w => ⟨done.toList, .error (.truncated w.position)⟩
  | turns + 1, done, w =>
    match Reader.instr.run w with
    | .error e => ⟨done.toList, .error e⟩
    | .ok (none, _) => ⟨done.toList, .ok w.position⟩
    | .ok (some i, rest) => Block.read turns (done.push ⟨w.position, i⟩) rest

/-- The block in bytes `start` to `stop` of a program. -/
def Block.of (code : Array UInt8) (start stop : Nat) : Block :=
  let w := Window.of code start stop
  Block.read (w.bytes.length + 1) #[] w

end TextureLoom.Bytecode
