import TextureLoom.Image.Basic
import TextureLoom.Bytecode.Instr

set_option autoImplicit false

namespace TextureLoom.Image

open Bytecode (AnimParams)

/-- The frames of a sheet. -/
structure FrameLayout where
  width : Nat
  height : Nat
  count : Nat
deriving DecidableEq, Repr

/-- Frames of `frame` that fit in `sheet` in the direction or directions of the layout, counted in 32-bit words. -/
def fittingFrames (sheetWidth sheetHeight frameWidth frameHeight : Nat) (params : AnimParams) : Nat :=
  if frameWidth = 0 ∨ frameHeight = 0 then 1
  else if params.isGrid then (sheetWidth / frameWidth) * (sheetHeight / frameHeight) % 0x100000000
  else if params.isHorizontal then sheetWidth / frameWidth
  else sheetHeight / frameHeight

/-- Size and number of the frames of a sheet, at least one. -/
def frameLayout (sheetWidth sheetHeight : Nat) (params : AnimParams) : FrameLayout :=
  let width := if params.frameWidth = 0 then sheetWidth else params.frameWidth.toNat
  let height := if params.frameHeight = 0 then sheetHeight else params.frameHeight.toNat
  let count := if params.frames = 0 then fittingFrames sheetWidth sheetHeight width height params
    else params.frames.toNat
  ⟨width, height, max count 1⟩

/-- Frames passed since time zero; zero before it and for times that are no number or have no end. -/
def frameTime (seconds : Float) (rate : UInt16) : Float :=
  let rate := if rate = 0 then AnimParams.defaultRate else rate
  let passed := seconds * rate.toFloat / 256
  if passed.isFinite && passed > 0 then passed else 0

/-- The frame shown and how far it has moved toward the next one. -/
structure FramePosition where
  index : Nat
  progress : Float

def framePosition (seconds : Float) (rate : UInt16) (count : Nat) : FramePosition :=
  let passed := frameTime seconds rate
  let whole := passed.floor
  ⟨whole.toUInt64.toNat % max count 1, passed - whole⟩

/-- The corner of frame `index` on a sheet, if the layout has such a frame. -/
def frameCorner? (sheet : Image) (index width height : Nat) (flags : UInt8) : Option (Nat × Nat) :=
  if flags &&& AnimParams.gridFlag != 0 then
    let columns := sheet.width / width
    let rows := sheet.height / height
    if columns = 0 ∨ rows = 0 ∨ rows ≤ index / columns then none
    else some (index % columns * width, index / columns * height)
  else if flags &&& AnimParams.horizontalFlag != 0 then some (index * width, 0)
  else some (0, index * height)

/-- Frame `index` of a sheet; places off the sheet are transparent black. -/
def crop (sheet : Image) (index width height : Nat) (flags : UInt8) : Image :=
  if width = 0 ∨ height = 0 then solid width height 0
  else
    match sheet.frameCorner? index width height flags with
    | none => solid width height 0
    | some (left, top) => tabulate width height fun x y =>
        if left + x < sheet.width ∧ top + y < sheet.height then sheet.get (left + x) (top + y) else 0

/-- A channel value `t` of the way from `a` to `b`. -/
def mixChannel (t : Float) (a b : UInt32) : UInt32 :=
  Pixel.clampChannel (a.toFloat + (b.toFloat - a.toFloat) * t).toInt32.toInt

def mixPixel (t : Float) (a b : Pixel) : Pixel :=
  Pixel.pack (mixChannel t a.alpha b.alpha) (mixChannel t a.red b.red) (mixChannel t a.green b.green)
    (mixChannel t a.blue b.blue)

/-- The image moved toward `next` by `t`; images of other sizes only replace it, at one and above. -/
def mix (img next : Image) (t : Float) : Image :=
  if t ≤ 0 || t.isNaN then img
  else if t ≥ 1 then next
  else if img.width ≠ next.width ∨ img.height ≠ next.height then img
  else img.zip (mixPixel t) next

/-- The frame of a sheet at a time, blended into the next one when the animation is smooth. -/
def animate (sheet : Image) (params : AnimParams) (seconds : Float) : Image :=
  let layout := frameLayout sheet.width sheet.height params
  let position := framePosition seconds params.rate layout.count
  let shown := sheet.crop position.index layout.width layout.height params.flags
  if params.isSmooth then
    let next := sheet.crop ((position.index + 1) % layout.count) layout.width layout.height params.flags
    shown.mix next position.progress
  else shown

end TextureLoom.Image
