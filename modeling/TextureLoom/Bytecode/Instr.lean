import TextureLoom.Pixel
import TextureLoom.Bytes

set_option autoImplicit false

namespace TextureLoom.Bytecode

/-- Bytes of a program, at most. -/
def sizeLimit : Nat := 65537

/-- The first number that three bytes cannot hold. -/
def limit24 : Nat := 0x1000000

/-- How a sheet is cut into frames and shown. Zero sizes stand for the sheet's own, a zero count for as many
frames as fit; the rate is in 256ths of a frame a second. -/
structure AnimParams where
  frameWidth : UInt16
  frameHeight : UInt16
  frames : UInt16
  rate : UInt16
  flags : UInt8
deriving DecidableEq, Repr

namespace AnimParams

/-- Eight frames a second. -/
def defaultRate : UInt16 := 2048

/-- Frames blend into each other. -/
def smoothFlag : UInt8 := 1
/-- Frames lie side by side. -/
def horizontalFlag : UInt8 := 2
/-- Frames lie in rows. -/
def gridFlag : UInt8 := 4

def isSmooth (p : AnimParams) : Bool := p.flags &&& smoothFlag != 0
def isHorizontal (p : AnimParams) : Bool := p.flags &&& horizontalFlag != 0
def isGrid (p : AnimParams) : Bool := p.flags &&& gridFlag != 0

end AnimParams

/-- An image placed on a canvas. -/
structure Inset (σ : Type) where
  x : UInt16
  y : UInt16
  source : σ
deriving DecidableEq, Repr

/-- An instruction whose image operands are of type `σ`. -/
inductive Instr (σ : Type) where
  | texture (source : σ)
  | fill (width height : UInt16) (color : Pixel)
  | sheet (source : σ) (params : AnimParams)
  | resize (width height : UInt16)
  | transform (mode : UInt8)
  | opacity (alpha : UInt8)
  | dropAlpha
  | keyColor (red green blue : UInt8)
  | invert (channels : UInt8)
  | brighten
  /-- Both operands are stored with 127 added. -/
  | contrast (level brightness : UInt8)
  | multiply (color : Pixel)
  | screen (color : Pixel)
  | colorize (color : Pixel) (ratio : UInt8)
  | animate (params : AnimParams)
  | overlay (source : σ)
  | mask (source : σ)
  | lowPart (percent : UInt8) (source : σ)
  | combine (width height : UInt16) (insets : List (Inset σ))
deriving DecidableEq, Repr

/-- The signed operand stored as `stored`. -/
def signedOperand (stored : UInt8) : Int := (stored.toNat : Int) - 127

namespace Instr

/-- The image operands in order. -/
def sources {σ : Type} : Instr σ → List σ
  | .texture s | .sheet s _ | .overlay s | .mask s | .lowPart _ s => [s]
  | .combine _ _ insets => insets.map (·.source)
  | _ => []

/-- The name of the instruction in listings and messages. -/
def mnemonic {σ : Type} : Instr σ → String
  | .texture _ => "base_tex"
  | .fill .. => "base_fill"
  | .sheet .. => "base_anim"
  | .resize .. => "resize"
  | .transform _ => "transform"
  | .opacity _ => "opacity"
  | .dropAlpha => "noalpha"
  | .keyColor .. => "make_alpha"
  | .invert _ => "invert"
  | .brighten => "brighten"
  | .contrast .. => "contrast"
  | .multiply _ => "multiply"
  | .screen _ => "screen"
  | .colorize .. => "colorize"
  | .animate _ => "anim"
  | .overlay _ => "overlay"
  | .mask _ => "mask"
  | .lowPart .. => "lowpart"
  | .combine .. => "combine"

/-- The instruction with each operand replaced, `f` being given the offset of the operand's first byte: the
instruction starts at `start` and an operand takes `size` bytes. -/
def place {σ τ : Type} (size : σ → Nat) (f : Nat → σ → τ) (start : Nat) : Instr σ → Instr τ
  | .texture s => .texture (f (start + 1) s)
  | .fill w h c => .fill w h c
  | .sheet s p => .sheet (f (start + 1) s) p
  | .resize w h => .resize w h
  | .transform t => .transform t
  | .opacity a => .opacity a
  | .dropAlpha => .dropAlpha
  | .keyColor r g b => .keyColor r g b
  | .invert m => .invert m
  | .brighten => .brighten
  | .contrast c b => .contrast c b
  | .multiply c => .multiply c
  | .screen c => .screen c
  | .colorize c r => .colorize c r
  | .animate p => .animate p
  | .overlay s => .overlay (f (start + 1) s)
  | .mask s => .mask (f (start + 1) s)
  | .lowPart p s => .lowPart p (f (start + 2) s)
  | .combine w h insets => .combine w h (placeInsets (start + 7) #[] insets)
where
  placeInsets (start : Nat) (done : Array (Inset τ)) : List (Inset σ) → List (Inset τ)
    | [] => done.toList
    | p :: rest => placeInsets (start + 4 + size p.source) (done.push ⟨p.x, p.y, f (start + 4) p.source⟩) rest

/-- The instruction with each operand replaced in order, a value passed from one to the next. -/
def thread {σ τ ρ : Type} (f : σ → ρ → τ × ρ) (i : Instr σ) (r : ρ) : Instr τ × ρ :=
  match i with
  | .texture s => let (t, r) := f s r; (.texture t, r)
  | .fill w h c => (.fill w h c, r)
  | .sheet s p => let (t, r) := f s r; (.sheet t p, r)
  | .resize w h => (.resize w h, r)
  | .transform t => (.transform t, r)
  | .opacity a => (.opacity a, r)
  | .dropAlpha => (.dropAlpha, r)
  | .keyColor red green blue => (.keyColor red green blue, r)
  | .invert m => (.invert m, r)
  | .brighten => (.brighten, r)
  | .contrast c b => (.contrast c b, r)
  | .multiply c => (.multiply c, r)
  | .screen c => (.screen c, r)
  | .colorize c ratio => (.colorize c ratio, r)
  | .animate p => (.animate p, r)
  | .overlay s => let (t, r) := f s r; (.overlay t, r)
  | .mask s => let (t, r) := f s r; (.mask t, r)
  | .lowPart p s => let (t, r) := f s r; (.lowPart p t, r)
  | .combine w h insets => let (done, r) := threadInsets #[] insets r; (.combine w h done, r)
where
  threadInsets (done : Array (Inset τ)) : List (Inset σ) → ρ → List (Inset τ) × ρ
    | [], r => (done.toList, r)
    | p :: rest, r =>
      let (t, r) := f p.source r
      threadInsets (done.push ⟨p.x, p.y, t⟩) rest r

/-- The instruction with each operand replaced. -/
def map {σ τ : Type} (f : σ → τ) (i : Instr σ) : Instr τ := i.place (fun _ => 0) (fun _ => f) 0

/-- The encoded length, when an operand takes `size` bytes. -/
def length {σ : Type} (size : σ → Nat) : Instr σ → Nat
  | .texture s | .overlay s | .mask s => 1 + size s
  | .fill .. => 9
  | .sheet s _ => 10 + size s
  | .resize .. => 5
  | .transform _ | .opacity _ | .invert _ => 2
  | .dropAlpha | .brighten => 1
  | .keyColor .. => 4
  | .contrast .. => 3
  | .multiply _ | .screen _ => 5
  | .colorize .. => 6
  | .animate _ => 10
  | .lowPart _ s => 2 + size s
  | .combine _ _ insets => insets.foldl (fun total p => total + (4 + size p.source)) 7

end Instr

/-- Where an image operand comes from. -/
inductive Origin where
  | texture (id : Nat)
  /-- The block of the program in these bytes. -/
  | block (offset length : Nat)
deriving DecidableEq, Repr

/-- An image operand and the offset of the number behind its kind byte. -/
structure Operand where
  field : Nat
  origin : Origin
deriving DecidableEq, Repr

namespace Operand

/-- The texture id of the operand and where it is written. -/
def texture? (o : Operand) : Option (Nat × Nat) :=
  match o.origin with
  | .texture id => some (o.field, id)
  | .block .. => none

/-- The range of the block that the operand names. -/
def block? (o : Operand) : Option (Nat × Nat) :=
  match o.origin with
  | .texture _ => none
  | .block offset length => some (offset, length)

end Operand

end TextureLoom.Bytecode
