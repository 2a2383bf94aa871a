import TextureLoom.Pixel

set_option autoImplicit false

namespace TextureLoom

/-- Pixels in rows from the top, each row from the left. -/
structure Image where
  width : Nat
  height : Nat
  pixels : Array Pixel
deriving DecidableEq, Repr, Inhabited

namespace Image

/-- The image has area, and a pixel for each place of it. -/
structure WellFormed (img : Image) : Prop where
  width_pos : 0 < img.width
  height_pos : 0 < img.height
  size_eq : img.pixels.size = img.width * img.height

/-- The pixel at column `x` of row `y`; places without one are transparent black. -/
def get (img : Image) (x y : Nat) : Pixel := img.pixels.getD (y * img.width + x) 0

/-- One colour everywhere. -/
def solid (width height : Nat) (color : Pixel) : Image := ⟨width, height, Array.replicate (width * height) color⟩

/-- The image whose pixel in column `x` of row `y` is `f x y`. -/
def tabulate (width height : Nat) (f : Nat → Nat → Pixel) : Image :=
  ⟨width, height, Array.ofFn fun i : Fin (width * height) => f (i.val % width) (i.val / width)⟩

/-- Every pixel changed on its own. -/
def map (f : Pixel → Pixel) (img : Image) : Image := { img with pixels := img.pixels.map f }

/-- Every pixel of `img` changed by the pixel of `other` with the same number; those without one stay. -/
def zip (f : Pixel → Pixel → Pixel) (img other : Image) : Image :=
  { img with pixels := img.pixels.mapIdx fun i p =>
      match other.pixels[i]? with
      | some q => f p q
      | none => p }

/-- Nearest-neighbour resampling: a target place takes the source place at the same fraction, rounded down. -/
def resize (img : Image) (width height : Nat) : Image :=
  if img.width = 0 ∨ img.height = 0 then solid width height 0
  else tabulate width height fun x y => img.get (x * img.width / width) (y * img.height / height)

/-- The image itself when it already has the size. -/
def fit (img : Image) (width height : Nat) : Image :=
  if img.width = width ∧ img.height = height then img else img.resize width height

/-- One of the eight orientations of a rectangle, by index modulo 8; odd ones swap width and height. -/
def orient (img : Image) (index : Nat) : Image :=
  let w := img.width
  let h := img.height
  if index % 8 = 0 ∨ w = 0 ∨ h = 0 then img
  else
    match index % 8 with
    | 1 => tabulate h w fun x y => img.get y (h - 1 - x)
    | 2 => tabulate w h fun x y => img.get (w - 1 - x) (h - 1 - y)
    | 3 => tabulate h w fun x y => img.get (w - 1 - y) x
    | 4 => tabulate w h fun x y => img.get (w - 1 - x) y
    | 5 => tabulate h w fun x y => img.get (w - 1 - y) (h - 1 - x)
    | 6 => tabulate w h fun x y => img.get x (h - 1 - y)
    | _ => tabulate h w fun x y => img.get y x

end Image

end TextureLoom
