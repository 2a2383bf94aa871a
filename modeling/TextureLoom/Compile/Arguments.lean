import TextureLoom.Pipeline.Basic
import TextureLoom.Source.SyntaxError
import TextureLoom.Bytecode.Instr

set_option autoImplicit false

namespace TextureLoom.Compile

open Source (Complaint SyntaxError)
open Bytecode (AnimParams)

abbrev Checked := Except SyntaxError

def reject {α : Type} (offset : Nat) (complaint : Complaint) : Checked α := .error ⟨offset, complaint⟩

/-- Refuses arguments with other names than these and unnamed ones beyond `unnamed`. -/
def checkArgs (call : Call) (names : List String) (unnamed : Nat) : Checked Unit :=
  go 0 call.args
where
  go (seen : Nat) : List Arg → Checked Unit
    | [] => .ok ()
    | a :: rest =>
      match a.name with
      | some name =>
        if names.contains name then go seen rest else reject a.offset (.unknownArgument call.name name)
      | none => if seen < unnamed then go (seen + 1) rest else reject a.offset (.tooManyArguments call.name)

/-- The argument with one of these names or at this position; the first name stands for it in messages. -/
def required (call : Call) (name : String) (aliases : List String) (position : Nat) : Checked Arg :=
  match call.arg? (name :: aliases) (some position) with
  | some a => .ok a
  | none => reject call.offset (.missingArgument call.name name)

/-- The number of an argument of the operation `op`. -/
def intOf (op : String) (a : Arg) : Checked Int :=
  match a.value with
  | .int v => .ok v
  | _ => reject a.offset (.notANumber op)

/-- The number of an argument, or `default` without it. -/
def intOr (call : Call) (default : Int) (names : List String) (position : Nat) : Checked Int :=
  match call.arg? names (some position) with
  | some a => intOf call.name a
  | none => .ok default

def colorOf (op : String) (a : Arg) : Checked Pixel :=
  match a.value.text?.bind Pixel.ofHexText? with
  | some color => .ok color
  | none => reject a.offset (.notAColor op)

/-- A width or height from 1 to 65535. -/
def side (what : String) (offset : Nat) (v : Int) : Checked UInt16 :=
  if 1 ≤ v ∧ v ≤ 65535 then .ok v.toNat.toUInt16 else reject offset (.sizeOutOfRange what v)

def sideOf (op what : String) (a : Arg) : Checked UInt16 := do side what a.offset (← intOf op a)

/-- A coordinate on a canvas. -/
def coordinateOf (a : Arg) : Checked UInt16 := do
  let v ← intOf "combine" a
  if 0 ≤ v ∧ v ≤ 65535 then pure v.toNat.toUInt16 else reject a.offset (.combinePosition v)

/-- The nearest byte value. -/
def byteOf (v : Int) : UInt8 := (Pixel.clampChannel v).toUInt8

/-- A signed operand from -127 to 127 as it is stored. -/
def storedOperand (v : Int) : UInt8 := (max (-127) (min v 127) + 127).toNat.toUInt8

/-- The bit of a colour channel. -/
def channelBit? (c : Char) : Option UInt8 :=
  if c == 'r' then some 1 else if c == 'g' then some 2 else if c == 'b' then some 4
  else if c == 'a' then some 8 else none

/-- The bits of the channels that an argument lists. -/
def channelsOf (a : Arg) : Checked UInt8 :=
  match a.value.text? with
  | none => reject a.offset .channelsNotText
  | some text =>
    text.toList.foldlM (fun bits c =>
      match channelBit? c.toLower with
      | some bit => .ok (bits ||| bit)
      | none => reject a.offset (.unknownChannel c.toLower)) 0

/-- The layout flag that an axis name stands for, by its first letter. -/
def axisFlag (axis : String) : UInt8 :=
  match axis.toList with
  | [] => AnimParams.gridFlag
  | c :: _ =>
    if c.toLower == 'x' || c.toLower == 'h' then AnimParams.horizontalFlag
    else if c.toLower == 'y' || c.toLower == 'v' then 0
    else AnimParams.gridFlag

/-- The names of animation arguments. -/
def animationNames : List String := ["frame_w", "w", "frame_h", "h", "frames", "count", "fps", "smooth", "axis"]

/-- A number from 0 to 65535, zero when it is not given. -/
def animationWord (call : Call) (what : String) (names : List String) (position : Nat) : Checked UInt16 :=
  match call.arg? names (some position) with
  | none => .ok 0
  | some a => do
    let v ← intOf "anim" a
    if 0 ≤ v ∧ v ≤ 65535 then pure v.toNat.toUInt16 else reject a.offset (.animationOutOfRange what)

/-- Whole frames a second, zero standing for the default. -/
def animationRate (call : Call) (position : Nat) : Checked UInt16 :=
  match call.arg? ["fps"] (some position) with
  | none => .ok AnimParams.defaultRate
  | some a => do
    let v ← intOf "anim" a
    if v < 0 then reject a.offset .negativeFrameRate
    else if v = 0 then pure AnimParams.defaultRate
    else pure (min (v * 256) 65535).toNat.toUInt16

def animationAxis (call : Call) : Checked UInt8 :=
  match call.arg? ["axis"] none with
  | none => .ok (axisFlag "")
  | some a =>
    match a.value.text? with
    | some axis => .ok (axisFlag axis)
    | none => reject a.offset .axisNotText

/-- The animation arguments of a call whose frame width is the unnamed argument number `shift`. -/
def animationOf (call : Call) (shift : Nat) : Checked AnimParams := do
  let frameWidth ← animationWord call "frame width" ["frame_w", "w"] shift
  let frameHeight ← animationWord call "frame height" ["frame_h", "h"] (shift + 1)
  let frames ← animationWord call "frame count" ["frames", "count"] (shift + 2)
  let rate ← animationRate call (shift + 3)
  let smooth ← match call.arg? ["smooth"] (some (shift + 4)) with
    | none => pure 0
    | some a => intOf "anim" a
  let axis ← animationAxis call
  pure ⟨frameWidth, frameHeight, frames, rate, (if smooth = 0 then 0 else AnimParams.smoothFlag) ||| axis⟩

end TextureLoom.Compile
