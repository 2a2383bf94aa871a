import TextureLoom.Image.Frame
import TextureLoom.Bytecode.Reach

set_option autoImplicit false

namespace TextureLoom

open Bytecode (AnimSpec)

/-- The animations of a program, each with the frame that it showed last. -/
structure Animation where
  tracks : List (AnimSpec × Option Nat)
deriving DecidableEq

namespace Animation

/-- Animations of which no frame has been shown, if there are any. -/
def start? (specs : List AnimSpec) : Option Animation :=
  if specs.isEmpty then none else some ⟨specs.map fun spec => (spec, none)⟩

/-- The frame of an animation at a time: by its sheet when the size of that is known, else counted on without end. -/
def frameAt (sheetSize : Nat → Option (Nat × Nat)) (seconds : Float) (spec : AnimSpec) : Nat :=
  match spec.texture.bind sheetSize with
  | some (width, height) =>
    (Image.framePosition seconds spec.params.rate (Image.frameLayout width height spec.params).count).index
  | none => (Image.frameTime seconds spec.params.rate).floor.toUInt64.toNat

/-- The animations after a step to a time, and whether their program looks different: one of them is smooth or shows
another frame. -/
def advance (a : Animation) (seconds : Float) (sheetSize : Nat → Option (Nat × Nat)) : Bool × Animation :=
  let frame := frameAt sheetSize seconds
  (a.tracks.any fun (spec, last) => spec.params.isSmooth || last != some (frame spec),
    ⟨a.tracks.map fun (spec, _) => (spec, some (frame spec))⟩)

end Animation

end TextureLoom
