import TextureLoom.Image.Adjust
import TextureLoom.Image.Compose
import TextureLoom.Image.Frame
import TextureLoom.Proofs.Bytes

set_option autoImplicit false

namespace TextureLoom.Image

variable {img other : Image} {width height x y : Nat} {f g : Nat → Nat → Pixel}

@[simp] theorem width_tabulate : (tabulate width height f).width = width := rfl

@[simp] theorem height_tabulate : (tabulate width height f).height = height := rfl

theorem size_tabulate : (tabulate width height f).pixels.size = width * height := Array.size_ofFn

theorem get_tabulate (column : x < width) (row : y < height) : (tabulate width height f).get x y = f x y := by
  have inside : y * width + x < (tabulate width height f).pixels.size := by
    rw [size_tabulate, Nat.mul_comm width]
    exact Bytes.row_bound row column
  obtain ⟨isRow, isColumn⟩ := Bytes.row_div_mod y column
  rw [get, width_tabulate, Array.getD, dif_pos inside, Array.getInternal_eq_getElem]
  simp only [tabulate, Array.getElem_ofFn, isRow, isColumn]

theorem get_solid {color : Pixel} (column : x < width) (row : y < height) :
    (solid width height color).get x y = color := by
  have inside : y * width + x < width * height := by
    rw [Nat.mul_comm width]
    exact Bytes.row_bound row column
  simp only [get, solid, Array.getD_eq_getD_getElem?, Array.getElem?_replicate, inside, ↓reduceIte, Option.getD_some]

/-- Images of one size are the same if they are at every place. -/
theorem ext_get (size : img.pixels.size = img.width * img.height)
    (otherSize : other.pixels.size = other.width * other.height) (sameWidth : img.width = other.width)
    (sameHeight : img.height = other.height)
    (same : ∀ x < other.width, ∀ y < other.height, img.get x y = other.get x y) : img = other := by
  have pixels : img.pixels = other.pixels := by
    apply Array.ext
    · rw [size, otherSize, sameWidth, sameHeight]
    · intro i bound otherBound
      have positive : 0 < other.width := by
        apply Nat.pos_of_ne_zero
        intro none
        rw [otherSize, none, Nat.zero_mul] at otherBound
        exact Nat.not_lt_zero i otherBound
      have place : i / other.width * other.width + i % other.width = i := Nat.div_add_mod' i other.width
      have atPlace := same (i % other.width) (Nat.mod_lt i positive) (i / other.width)
        (Nat.div_lt_of_lt_mul (otherSize ▸ otherBound))
      rw [get, get, sameWidth, place] at atPlace
      simpa only [Array.getD, bound, otherBound, ↓reduceDIte, Array.getInternal_eq_getElem] using atPlace
  cases img
  cases other
  cases sameWidth
  cases sameHeight
  cases pixels
  rfl

theorem tabulate_congr (same : ∀ x < width, ∀ y < height, f x y = g x y) :
    tabulate width height f = tabulate width height g := by
  refine ext_get size_tabulate size_tabulate rfl rfl ?_
  intro x column y row
  rw [width_tabulate] at column
  rw [height_tabulate] at row
  rw [get_tabulate column row, get_tabulate column row, same x column y row]

/-- An image is the table of its own pixels. -/
theorem tabulate_get (size : img.pixels.size = img.width * img.height) :
    tabulate img.width img.height img.get = img := by
  refine ext_get size_tabulate size rfl rfl ?_
  intro x column y row
  exact get_tabulate column row

theorem wellFormed_tabulate (columns : 0 < width) (rows : 0 < height) (f : Nat → Nat → Pixel) :
    (tabulate width height f).WellFormed := ⟨columns, rows, size_tabulate⟩

end TextureLoom.Image
