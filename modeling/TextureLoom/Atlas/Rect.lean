set_option autoImplicit false

namespace TextureLoom.Atlas

/-- An axis-aligned rectangle of texels. -/
structure Rect where
  x : Nat
  y : Nat
  width : Nat
  height : Nat
deriving DecidableEq, Repr, Inhabited

namespace Rect

def right (r : Rect) : Nat := r.x + r.width
def bottom (r : Rect) : Nat := r.y + r.height

/-- Whether the texel in column `x` of row `y` is in the rectangle. -/
def Covers (r : Rect) (x y : Nat) : Prop := r.x ≤ x ∧ x < r.right ∧ r.y ≤ y ∧ y < r.bottom

instance (r : Rect) (x y : Nat) : Decidable (r.Covers x y) := by unfold Covers; infer_instance

def isEmpty (r : Rect) : Bool := r.width == 0 || r.height == 0

def contains (r other : Rect) : Bool :=
  r.x ≤ other.x && r.y ≤ other.y && other.right ≤ r.right && other.bottom ≤ r.bottom

def intersects (r other : Rect) : Bool :=
  !(r.right ≤ other.x || other.right ≤ r.x || r.bottom ≤ other.y || other.bottom ≤ r.y)

/-- What is left of a rectangle around `used`: the strips above and below over its whole width, then those beside. -/
def minus (r used : Rect) : List Rect :=
  if r.intersects used then
    let bandTop := max r.y used.y
    let bandHeight := min r.bottom used.bottom - bandTop
    (if r.y < used.y then [⟨r.x, r.y, r.width, used.y - r.y⟩] else [])
      ++ (if used.bottom < r.bottom then [⟨r.x, used.bottom, r.width, r.bottom - used.bottom⟩] else [])
      ++ (if r.x < used.x then [⟨r.x, bandTop, used.x - r.x, bandHeight⟩] else [])
      ++ (if used.right < r.right then [⟨used.right, bandTop, r.right - used.right, bandHeight⟩] else [])
  else [r]

/-- The union of two rectangles that share a whole edge. -/
def join? (a b : Rect) : Option Rect :=
  if a.x = b.x ∧ a.width = b.width ∧ a.bottom = b.y then some ⟨a.x, a.y, a.width, a.height + b.height⟩
  else if a.x = b.x ∧ a.width = b.width ∧ b.bottom = a.y then some ⟨b.x, b.y, b.width, a.height + b.height⟩
  else if a.y = b.y ∧ a.height = b.height ∧ a.right = b.x then some ⟨a.x, a.y, a.width + b.width, a.height⟩
  else if a.y = b.y ∧ a.height = b.height ∧ b.right = a.x then some ⟨b.x, b.y, a.width + b.width, a.height⟩
  else none

end Rect

end TextureLoom.Atlas
