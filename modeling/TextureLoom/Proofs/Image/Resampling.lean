import TextureLoom.Proofs.Image.Accessing

set_option autoImplicit false

namespace TextureLoom.Image

/-- The place in a row of `length` that place `i` of a row of `target` shows. -/
def sample (length target i : Nat) : Nat := i * length / target

variable {img : Image} {length target width height k l i x y : Nat}

theorem monotone_sample (length target : Nat) : Monotone (sample length target) := by
  intro i j le
  exact Nat.div_le_div_right (Nat.mul_le_mul_right length le)

theorem sample_lt (some : 0 < length) (inside : i < target) : sample length target i < length :=
  Nat.div_lt_of_lt_mul (Nat.mul_lt_mul_of_pos_right inside some)

theorem sample_self (inside : i < length) : sample length length i = i :=
  Nat.mul_div_cancel i (Nat.zero_lt_of_lt inside)

/-- Each place of a row is shown by the first of the `k` that stand for it in a row `k` times as long. -/
theorem sample_sample (some : 0 < k) (inside : i < length) :
    sample length (k * length) (sample (k * length) length i) = i := by
  have positive : 0 < length := Nat.zero_lt_of_lt inside
  have first : sample (k * length) length i = i * k := by
    rw [sample, ← Nat.mul_assoc, Nat.mul_div_cancel _ positive]
  rw [first, sample, Nat.mul_assoc, Nat.mul_div_cancel _ (Nat.mul_pos some positive)]

theorem width_resize (img : Image) (width height : Nat) : (img.resize width height).width = width := by
  unfold resize
  split <;> rfl

theorem height_resize (img : Image) (width height : Nat) : (img.resize width height).height = height := by
  unfold resize
  split <;> rfl

theorem pixels_resize (img : Image) (width height : Nat) :
    (img.resize width height).pixels.size = (img.resize width height).width * (img.resize width height).height := by
  rw [width_resize, height_resize]
  unfold resize
  split
  · exact Array.size_replicate
  · exact size_tabulate

theorem get_resize (columns : 0 < img.width) (rows : 0 < img.height) (column : x < width) (row : y < height) :
    (img.resize width height).get x y = img.get (sample img.width width x) (sample img.height height y) := by
  have area : ¬(img.width = 0 ∨ img.height = 0) := by omega
  rw [resize, if_neg area, get_tabulate column row]
  rfl

theorem resize_self (size : img.pixels.size = img.width * img.height) : img.resize img.width img.height = img := by
  refine ext_get (pixels_resize _ _ _) size (width_resize _ _ _) (height_resize _ _ _) fun x column y row => ?_
  rw [get_resize (Nat.zero_lt_of_lt column) (Nat.zero_lt_of_lt row) column row, sample_self column, sample_self row]

theorem resize_resize (size : img.pixels.size = img.width * img.height) (someColumns : 0 < k) (someRows : 0 < l) :
    (img.resize (k * img.width) (l * img.height)).resize img.width img.height = img := by
  refine ext_get (pixels_resize _ _ _) size (width_resize _ _ _) (height_resize _ _ _) fun x column y row => ?_
  have columns : 0 < img.width := Nat.zero_lt_of_lt column
  have rows : 0 < img.height := Nat.zero_lt_of_lt row
  have wide : 0 < k * img.width := Nat.mul_pos someColumns columns
  have high : 0 < l * img.height := Nat.mul_pos someRows rows
  rw [get_resize (by rwa [width_resize]) (by rwa [height_resize]) column row, width_resize, height_resize,
    get_resize columns rows (sample_lt wide column) (sample_lt high row), sample_sample someColumns column,
    sample_sample someRows row]

theorem fit_eq_resize (size : img.pixels.size = img.width * img.height) (width height : Nat) :
    img.fit width height = img.resize width height := by
  unfold fit
  split
  · next same =>
    obtain ⟨rfl, rfl⟩ := same
    exact (resize_self size).symm
  · rfl

/-- No image has too few pixels to be resized, be it without area. -/
theorem resize?_eq_some (size : img.pixels.size = img.width * img.height) (width height : Nat) :
    img.resize? width height = some (img.resize width height) := by
  by_cases area : img.width = 0 ∨ img.height = 0
  · rw [resize?, resize, if_pos area, if_pos area]
  · have wellFormed : img.WellFormed := ⟨by omega, by omega, size⟩
    exact wellFormed.resize?_eq width height

/-- An image that is resized to whole multiples of its sides and back is what it was, and at its own size it stays as it
is, so that nothing is lost by leaving it there. Whatever the size, each place shows a place of the image, and farther
places do not go back in it. -/
theorem resize_multiples (size : img.pixels.size = img.width * img.height) :
    (∀ k l, 1 ≤ k → 1 ≤ l → (img.resize (k * img.width) (l * img.height)).resize img.width img.height = img) ∧
    img.resize img.width img.height = img ∧
    (∀ width height, img.fit width height = img.resize width height) ∧
    ∀ width height,
      img.resize? width height = some (img.resize width height) ∧
      Monotone (sample img.width width) ∧ Monotone (sample img.height height) ∧
      (0 < img.width → 0 < img.height → ∀ x < width, ∀ y < height,
        sample img.width width x < img.width ∧ sample img.height height y < img.height ∧
        (img.resize width height).get x y = img.get (sample img.width width x) (sample img.height height y)) := by
  refine ⟨fun k l => resize_resize size, resize_self size, fit_eq_resize size, fun width height => ?_⟩
  refine ⟨resize?_eq_some size width height, monotone_sample _ _, monotone_sample _ _, ?_⟩
  intro columns rows x column y row
  exact ⟨sample_lt columns column, sample_lt rows row, get_resize columns rows column row⟩

theorem resize_multiples_ramp :
    ramp.pixels.size = ramp.width * ramp.height ∧ (ramp.resize (2 * 3) (5 * 2)).resize 3 2 = ramp ∧
      ramp.resize 3 2 = ramp ∧ ramp.fit 7 5 = ramp.resize 7 5 ∧ (ramp.resize 7 5).get 5 3 = ramp.get 2 1 := by
  have size : ramp.pixels.size = ramp.width * ramp.height := by decide
  obtain ⟨multiples, same, fitted, sampled⟩ := resize_multiples size
  obtain ⟨-, -, -, shown⟩ := sampled 7 5
  exact ⟨size, multiples 2 5 (by decide) (by decide), same, fitted 7 5,
    (shown (by decide) (by decide) 5 (by decide) 3 (by decide)).2.2⟩

end TextureLoom.Image
