import TextureLoom.Image.Adjust
import TextureLoom.Image.Compose
import TextureLoom.Image.Frame
import TextureLoom.Bytecode.Reach

set_option autoImplicit false

namespace TextureLoom

open Bytecode (DecodeError Instr Inset AnimParams)

/-- Why a program makes no image. -/
inductive BakeError where
  | undecodable (e : DecodeError)
  | missingTexture (id : Nat)
  | missingBase (mnemonic : String) (position : Nat)
  | emptySize (what : String) (width height : Nat) (position : Nat)
  | blockOutOfRange (offset length size : Nat)
  | recursiveBlock (offset length : Nat)
  | tooDeep
  | imageTooLarge (width height : Nat)
deriving DecidableEq, Repr

def BakeError.message : BakeError → String
  | .undecodable e => e.message
  | .missingTexture id => s!"texture {id} is missing or has an invalid view"
  | .missingBase mnemonic position => s!"{mnemonic} at byte {position} needs a base image"
  | .emptySize what width height position =>
    s!"invalid operand at byte {position}: {what} has a zero dimension ({width}x{height})"
  | .blockOutOfRange offset length size => s!"sub-program {offset}+{length} lies outside the {size}-byte program"
  | .recursiveBlock offset length => s!"sub-program {offset}+{length} refers to itself"
  | .tooDeep => s!"sub-programs nested deeper than {Bytecode.depthLimit} levels"
  | .imageTooLarge width height => s!"image {width}x{height} exceeds the pixel limit"

namespace Bake

/-- Pixels of an image that an instruction makes, at most. -/
def pixelLimit : Nat := 0x4000000

section

variable {m : Type → Type} [Monad m] [MonadExceptOf BakeError m] {σ : Type}

def checkSize (width height : Nat) : m Unit :=
  if pixelLimit < width * height then throw (.imageTooLarge width height) else pure ()

def checkNonempty (what : String) (width height position : Nat) : m Unit :=
  if width = 0 ∨ height = 0 then throw (.emptySize what width height position) else pure ()

/-- The image so far, which the instruction cannot do without. -/
def needBase (i : Instr σ) (position : Nat) : Option Image → m Image
  | some img => pure img
  | none => throw (.missingBase i.mnemonic position)

def checkFrames (params : AnimParams) (sheet : Image) : m Unit :=
  let layout := Image.frameLayout sheet.width sheet.height params
  checkSize layout.width layout.height

/-- The canvas with each inset laid on it in order. -/
def placeInsets (load : σ → m Image) (canvas : Image) (insets : List (Inset σ)) : m Image :=
  insets.foldlM (fun canvas inset => do
    let img ← load inset.source
    pure (canvas.overlayAt img inset.x.toNat inset.y.toNat)) canvas

/-- The image that one instruction, which stands at `position`, makes of the image so far. Operands are loaded by
`load`, and animations show their frame at `seconds`. -/
def step (load : σ → m Image) (seconds : Float) (position : Nat) (i : Instr σ) (current : Option Image) : m Image :=
  match i with
  | .texture source => load source
  | .fill w h color => do
    checkNonempty "fill" w.toNat h.toNat position
    checkSize w.toNat h.toNat
    pure (.solid w.toNat h.toNat color)
  | .sheet source params => do
    let sheet ← load source
    checkFrames params sheet
    pure (sheet.animate params seconds)
  | .resize w h => do
    let img ← needBase i position current
    checkNonempty "resize" w.toNat h.toNat position
    checkSize w.toNat h.toNat
    pure (img.resize w.toNat h.toNat)
  | .transform mode => do pure ((← needBase i position current).orient mode.toNat)
  | .opacity alpha => do pure ((← needBase i position current).fade alpha.toUInt32)
  | .dropAlpha => do pure (← needBase i position current).dropAlpha
  | .keyColor r g b => do pure ((← needBase i position current).keyColor r.toUInt32 g.toUInt32 b.toUInt32)
  | .invert channels => do pure ((← needBase i position current).invert channels)
  | .brighten => do pure (← needBase i position current).brighten
  | .contrast level brightness => do
    pure ((← needBase i position current).contrast (Bytecode.signedOperand level)
      (Bytecode.signedOperand brightness))
  | .multiply color => do pure ((← needBase i position current).multiply color)
  | .screen color => do pure ((← needBase i position current).screen color)
  | .colorize color ratio => do pure ((← needBase i position current).colorize color ratio.toUInt32)
  | .animate params => do
    let sheet ← needBase i position current
    checkFrames params sheet
    pure (sheet.animate params seconds)
  | .overlay source => do
    let top ← load source
    match current with
    | none => pure top
    | some img => pure (img.overlay (top.fit img.width img.height))
  | .mask source => do
    let img ← needBase i position current
    let mask ← load source
    pure (img.applyMask (mask.fit img.width img.height))
  | .lowPart percent source => do
    let img ← needBase i position current
    let top ← load source
    pure (img.lowPart (top.fit img.width img.height) percent.toNat)
  | .combine w h insets => do
    checkNonempty "combine canvas" w.toNat h.toNat position
    checkSize w.toNat h.toNat
    placeInsets load (.solid w.toNat h.toNat 0) insets

end

end Bake

end TextureLoom
