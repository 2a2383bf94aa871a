import TextureLoom.Bake.Machine
import TextureLoom.Proofs.Image.Orienting

set_option autoImplicit false

namespace TextureLoom

open Bytecode (AnimParams)

/-- One element changed, which has to be there. -/
def modify? {α : Type} (xs : Array α) (i : Nat) (f : α → Option α) : Option (Array α) := do
  let x ← xs[i]?
  let changed ← f x
  pure (xs.modify i fun _ => changed)

theorem modify?_eq_some {α : Type} {xs : Array α} {i : Nat} {f : α → Option α} {g : α → α} (inside : i < xs.size)
    (changes : ∀ x, f x = some (g x)) : modify? xs i f = some (xs.modify i g) := by
  have same : (xs.modify i fun _ => g xs[i]) = xs.modify i g := by
    apply Array.ext
    · rw [Array.size_modify, Array.size_modify]
    · intro k bound _
      rw [Array.getElem_modify, Array.getElem_modify]
      split
      · next isIndex => subst isIndex; rfl
      · rfl
  simp only [modify?, Array.getElem?_eq_getElem inside, changes, same, Option.bind_eq_bind, Option.bind_some,
    Option.pure_def]

/-- A loop whose steps all go through does what it does without their checks. -/
theorem foldlM_range_eq_some {α : Type} {check : α → Nat → Option α} {f : Nat → α → α} (inv : α → Prop) {start : α}
    (holds : inv start) (count : Nat)
    (step : ∀ i < count, ∀ acc, inv acc → check acc i = some (f i acc) ∧ inv (f i acc)) :
    (List.range count).foldlM check start = some (count.fold (fun i _ acc => f i acc) start) ∧
      inv (count.fold (fun i _ acc => f i acc) start) := by
  induction count with
  | zero => exact ⟨rfl, holds⟩
  | succ count ih =>
    obtain ⟨before, kept⟩ := ih fun i less => step i (Nat.lt_succ_of_lt less)
    obtain ⟨last, keptToo⟩ := step count (Nat.lt_succ_self count) _ kept
    rw [List.range_succ, List.foldlM_append, before, Nat.fold_succ]
    simp only [Option.bind_eq_bind, Option.bind_some, List.foldlM_cons, List.foldlM_nil, last, Option.pure_def]
    exact ⟨trivial, keptToo⟩

/-- A run of elements changed one after the other, which has to be there. -/
theorem foldlM_modify?_eq {α : Type} {xs : Array α} {start count : Nat} {f : Nat → α → Option α} {g : Nat → α → α}
    (inside : ∀ k < count, start + k < xs.size) (changes : ∀ k < count, ∀ x, f k x = some (g k x)) :
    (List.range count).foldlM (fun acc k => modify? acc (start + k) (f k)) xs =
        some (count.fold (fun k _ acc => acc.modify (start + k) (g k)) xs) ∧
      (count.fold (fun k _ acc => acc.modify (start + k) (g k)) xs).size = xs.size := by
  refine foldlM_range_eq_some (fun acc : Array α => acc.size = xs.size) rfl count fun k less acc kept => ⟨?_, ?_⟩
  · exact modify?_eq_some (kept ▸ inside k less) (changes k less)
  · rw [Array.size_modify, kept]

theorem getElem?_fold_modify {α : Type} (xs : Array α) (g : Nat → α → α) (start count i : Nat) :
    (count.fold (fun k _ acc => acc.modify (start + k) (g k)) xs)[i]? =
      xs[i]?.map fun x => if start ≤ i ∧ i < start + count then g (i - start) x else x := by
  induction count with
  | zero =>
    rw [Nat.fold_zero]
    simp only [Nat.add_zero, show ¬(start ≤ i ∧ i < start) by omega, ↓reduceIte, Option.map_id']
  | succ count ih =>
    rw [Nat.fold_succ, Array.getElem?_modify, ih]
    by_cases last : start + count = i
    · subst last
      simp only [↓reduceIte, Option.map_map, Function.comp_def, Nat.le_add_right, Nat.lt_irrefl, and_false, true_and,
        Nat.add_sub_cancel_left, show start + count < start + (count + 1) by omega]
    · rw [if_neg last]
      congr 1
      funext x
      congr 1
      exact propext (by omega)

namespace Image

/-! The operations again, for images that may have too few pixels: each fails when it comes to a pixel that is not
there. -/

/-- The pixel at column `x` of row `y`. -/
def get? (img : Image) (x y : Nat) : Option Pixel :=
  if x < img.width ∧ y < img.height then img.pixels[y * img.width + x]? else none

def tabulate? (width height : Nat) (f : Nat → Nat → Option Pixel) : Option Image := do
  let pixels ← Array.ofFnM fun i : Fin (width * height) => f (i.val % width) (i.val / width)
  pure ⟨width, height, pixels⟩

/-- Every pixel of `img` changed by the pixel of `other` with the same number. -/
def zip? (f : Pixel → Pixel → Pixel) (img other : Image) : Option Image := do
  let pixels ← Array.ofFnM fun i : Fin img.pixels.size => other.pixels[i.val]?.map (f img.pixels[i])
  pure { img with pixels }

def resize? (img : Image) (width height : Nat) : Option Image :=
  if img.width = 0 ∨ img.height = 0 then some (solid width height 0)
  else tabulate? width height fun x y => img.get? (x * img.width / width) (y * img.height / height)

def fit? (img : Image) (width height : Nat) : Option Image :=
  if img.width = width ∧ img.height = height then some img else img.resize? width height

def orient? (img : Image) (index : Nat) : Option Image :=
  let w := img.width
  let h := img.height
  if index % 8 = 0 ∨ w = 0 ∨ h = 0 then some img
  else
    match index % 8 with
    | 1 => tabulate? h w fun x y => img.get? y (h - 1 - x)
    | 2 => tabulate? w h fun x y => img.get? (w - 1 - x) (h - 1 - y)
    | 3 => tabulate? h w fun x y => img.get? (w - 1 - y) x
    | 4 => tabulate? w h fun x y => img.get? (w - 1 - x) y
    | 5 => tabulate? h w fun x y => img.get? (w - 1 - y) (h - 1 - x)
    | 6 => tabulate? w h fun x y => img.get? x (h - 1 - y)
    | _ => tabulate? h w fun x y => img.get? y x

def applyMask? (img mask : Image) : Option Image :=
  img.zip? (fun p m => p.withAlpha (Pixel.scale p.alpha m.alpha)) mask

def overlay? (img top : Image) : Option Image := img.zip? Pixel.blendOver top

def blendRow? (top : Image) (row columns start : Nat) (pixels : Array Pixel) : Option (Array Pixel) :=
  (List.range columns).foldlM (fun acc column =>
    modify? acc (start + column) fun p => (top.get? column row).map (Pixel.blendOver p)) pixels

def overlayAt? : Image → Image → Nat → Nat → Option Image
  | ⟨width, height, pixels⟩, top, x, y => do
    let columns := min top.width (width - x)
    let rows := min top.height (height - y)
    let pixels ← (List.range rows).foldlM (fun acc row => top.blendRow? row columns ((y + row) * width + x) acc) pixels
    pure ⟨width, height, pixels⟩

def lowPart? (img top : Image) (percent : Nat) : Option Image := do
  let start := lowPartStart img.height percent * img.width
  let stop := img.height * img.width
  let pixels ← (List.range (stop - start)).foldlM (fun acc i =>
    modify? acc (start + i) fun p => top.pixels[start + i]?.map (Pixel.blendOver p)) img.pixels
  pure { img with pixels }

def crop? (sheet : Image) (index width height : Nat) (flags : UInt8) : Option Image :=
  if width = 0 ∨ height = 0 then some (solid width height 0)
  else
    match sheet.frameCorner? index width height flags with
    | none => some (solid width height 0)
    | some (left, top) => tabulate? width height fun x y =>
        if left + x < sheet.width ∧ top + y < sheet.height then sheet.get? (left + x) (top + y) else some 0

def mix? (img next : Image) (t : Float) : Option Image :=
  if t ≤ 0 || t.isNaN then some img
  else if t ≥ 1 then some next
  else if img.width ≠ next.width ∨ img.height ≠ next.height then some img
  else img.zip? (mixPixel t) next

def animate? (sheet : Image) (params : AnimParams) (seconds : Float) : Option Image := do
  let layout := frameLayout sheet.width sheet.height params
  let position := framePosition seconds params.rate layout.count
  let shown ← sheet.crop? position.index layout.width layout.height params.flags
  if params.isSmooth then
    let next ← sheet.crop? ((position.index + 1) % layout.count) layout.width layout.height params.flags
    shown.mix? next position.progress
  else pure shown

/-! Well-formed images have all the pixels that the operations come to. -/

variable {img other : Image} {width height x y : Nat}

theorem WellFormed.get?_eq (wellFormed : img.WellFormed) (column : x < img.width) (row : y < img.height) :
    img.get? x y = some (img.get x y) := by
  have inside : y * img.width + x < img.pixels.size := by
    rw [wellFormed.size_eq, Nat.mul_comm img.width]
    exact Bytes.row_bound row column
  rw [get?, if_pos ⟨column, row⟩, get, Array.getElem?_eq_getElem inside, Array.getD, dif_pos inside]
  rfl

theorem tabulate?_eq {f : Nat → Nat → Option Pixel} {g : Nat → Nat → Pixel}
    (same : ∀ x < width, ∀ y < height, f x y = some (g x y)) :
    tabulate? width height f = some (tabulate width height g) := by
  have pixels : (fun i : Fin (width * height) => f (i.val % width) (i.val / width)) =
      fun i : Fin (width * height) => pure (g (i.val % width) (i.val / width)) := by
    funext i
    have columns : 0 < width := Nat.pos_of_mul_pos_right (Nat.zero_lt_of_lt i.isLt)
    exact same _ (Nat.mod_lt _ columns) _ (Nat.div_lt_of_lt_mul i.isLt)
  rw [tabulate?, pixels, Array.ofFnM_pure]
  rfl

theorem zip?_eq (f : Pixel → Pixel → Pixel) (covers : img.pixels.size ≤ other.pixels.size) :
    img.zip? f other = some (img.zip f other) := by
  have changed : (fun i : Fin img.pixels.size => other.pixels[i.val]?.map (f img.pixels[i])) =
      fun i : Fin img.pixels.size => pure (f img.pixels[i] other.pixels[i]) := by
    funext i
    rw [Array.getElem?_eq_getElem (Nat.lt_of_lt_of_le i.isLt covers)]
    rfl
  rw [zip?, changed, Array.ofFnM_pure, zip]
  simp only [pure_bind]
  congr 2
  apply Array.ext
  · rw [Array.size_ofFn, Array.size_mapIdx]
  · intro i bound _
    have partner : i < other.pixels.size := Nat.lt_of_lt_of_le (by simpa using bound) covers
    simp only [Array.getElem_ofFn, Array.getElem_mapIdx, Array.getElem?_eq_getElem partner]
    rfl

theorem wellFormed_solid (columns : 0 < width) (rows : 0 < height) (color : Pixel) :
    (solid width height color).WellFormed := ⟨columns, rows, Array.size_replicate⟩

theorem WellFormed.map (wellFormed : img.WellFormed) (f : Pixel → Pixel) : (img.map f).WellFormed :=
  ⟨wellFormed.width_pos, wellFormed.height_pos, by rw [Image.map, Array.size_map, wellFormed.size_eq]⟩

theorem WellFormed.zip (wellFormed : img.WellFormed) (f : Pixel → Pixel → Pixel) (other : Image) :
    (img.zip f other).WellFormed :=
  ⟨wellFormed.width_pos, wellFormed.height_pos, by rw [Image.zip, Array.size_mapIdx, wellFormed.size_eq]⟩

theorem WellFormed.resize_eq (wellFormed : img.WellFormed) (width height : Nat) :
    img.resize width height =
      tabulate width height fun x y => img.get (x * img.width / width) (y * img.height / height) :=
  if_neg (not_or.mpr ⟨Nat.ne_of_gt wellFormed.width_pos, Nat.ne_of_gt wellFormed.height_pos⟩)

theorem WellFormed.size_resize (wellFormed : img.WellFormed) (width height : Nat) :
    (img.resize width height).width = width ∧ (img.resize width height).height = height := by
  rw [wellFormed.resize_eq]
  exact ⟨rfl, rfl⟩

theorem WellFormed.resize (wellFormed : img.WellFormed) (columns : 0 < width) (rows : 0 < height) :
    (img.resize width height).WellFormed := by
  rw [wellFormed.resize_eq]
  exact wellFormed_tabulate columns rows _

theorem WellFormed.resize?_eq (wellFormed : img.WellFormed) (width height : Nat) :
    img.resize? width height = some (img.resize width height) := by
  have area := not_or.mpr ⟨Nat.ne_of_gt wellFormed.width_pos, Nat.ne_of_gt wellFormed.height_pos⟩
  rw [resize?, if_neg area, wellFormed.resize_eq]
  refine tabulate?_eq fun x column y row => wellFormed.get?_eq ?_ ?_
  · exact Nat.div_lt_of_lt_mul (Nat.mul_lt_mul_of_pos_right column wellFormed.width_pos)
  · exact Nat.div_lt_of_lt_mul (Nat.mul_lt_mul_of_pos_right row wellFormed.height_pos)

theorem WellFormed.orient?_eq (wellFormed : img.WellFormed) (index : Nat) :
    img.orient? index = some (img.orient index) := by
  have columns := wellFormed.width_pos
  have rows := wellFormed.height_pos
  have small : index % 8 < 8 := Nat.mod_lt index (by decide)
  unfold orient? Image.orient
  by_cases upright : index % 8 = 0
  · simp only [upright, true_or, ↓reduceIte]
  · have turned : ¬(index % 8 = 0 ∨ img.width = 0 ∨ img.height = 0) := by omega
    rw [if_neg turned, if_neg turned]
    generalize index % 8 = kind at small upright
    interval_cases kind
    · exact absurd rfl upright
    all_goals exact tabulate?_eq fun x column y row => wellFormed.get?_eq (by omega) (by omega)

/-- An image that has only one of its four pixels cannot be turned. -/
example : (⟨2, 2, #[0]⟩ : Image).orient? 1 = none := by decide +kernel

/-- `other` is as large as `img`, and both are well formed. -/
structure Fits (img other : Image) : Prop where
  base : img.WellFormed
  top : other.WellFormed
  width : other.width = img.width
  height : other.height = img.height

theorem Fits.size (fits : img.Fits other) : other.pixels.size = img.pixels.size := by
  rw [fits.top.size_eq, fits.base.size_eq, fits.width, fits.height]

theorem Fits.zip?_eq (fits : img.Fits other) (f : Pixel → Pixel → Pixel) : img.zip? f other = some (img.zip f other) :=
  Image.zip?_eq f (Nat.le_of_eq fits.size.symm)

theorem Fits.applyMask?_eq (fits : img.Fits other) : img.applyMask? other = some (img.applyMask other) :=
  fits.zip?_eq _

theorem Fits.overlay?_eq (fits : img.Fits other) : img.overlay? other = some (img.overlay other) := fits.zip?_eq _

/-- An image brought to the size of another. -/
theorem WellFormed.fits (wellFormed : img.WellFormed) (top : other.WellFormed) :
    img.Fits (other.fit img.width img.height) := by
  unfold fit
  split
  · next same => exact ⟨wellFormed, top, same.1, same.2⟩
  · obtain ⟨width, height⟩ := top.size_resize img.width img.height
    exact ⟨wellFormed, top.resize wellFormed.width_pos wellFormed.height_pos, width, height⟩

theorem WellFormed.fit?_eq (wellFormed : img.WellFormed) (width height : Nat) :
    img.fit? width height = some (img.fit width height) := by
  unfold fit? fit
  split
  · rfl
  · exact wellFormed.resize?_eq width height

theorem Fits.lowPart?_eq (fits : img.Fits other) (percent : Nat) :
    img.lowPart? other percent = some (img.lowPart other percent) := by
  have whole : img.height * img.width = img.pixels.size := by rw [fits.base.size_eq, Nat.mul_comm]
  have within : lowPartStart img.height percent * img.width ≤ img.pixels.size := by
    rw [← whole]
    exact Nat.mul_le_mul_right img.width (Nat.sub_le ..)
  unfold lowPart? lowPart
  simp only [whole]
  generalize lowPartStart img.height percent * img.width = start at within
  have blended : ∀ k < img.pixels.size - start, ∀ p, other.pixels[start + k]?.map (Pixel.blendOver p) =
      some (Pixel.blendOver p (other.pixels.getD (start + k) 0)) := by
    intro k less p
    have inside : start + k < other.pixels.size := by
      rw [fits.size]
      omega
    rw [Array.getElem?_eq_getElem inside, Array.getD, dif_pos inside]
    rfl
  rw [(foldlM_modify?_eq (fun k less => by omega) blended).1]
  simp only [Option.bind_eq_bind, Option.bind_some, Option.pure_def]
  congr 2
  apply Array.ext_getElem?
  intro i
  rw [getElem?_fold_modify, Array.getElem?_mapIdx, Nat.add_sub_cancel' within]
  congr 1
  funext p
  split
  · next inside => rw [Nat.add_sub_cancel' inside.1]
  · rfl

theorem WellFormed.lowPart (wellFormed : img.WellFormed) (top : Image) (percent : Nat) :
    (img.lowPart top percent).WellFormed :=
  ⟨wellFormed.width_pos, wellFormed.height_pos, by rw [Image.lowPart, Array.size_mapIdx, wellFormed.size_eq]⟩

theorem WellFormed.blendRow?_eq {top : Image} (wellFormed : top.WellFormed) (pixels : Array Pixel)
    {row columns start : Nat} (inRow : row < top.height) (inColumns : columns ≤ top.width)
    (inside : ∀ column < columns, start + column < pixels.size) :
    top.blendRow? row columns start pixels = some (top.blendRow row columns start pixels) ∧
      (top.blendRow row columns start pixels).size = pixels.size := by
  refine foldlM_modify?_eq inside fun column less p => ?_
  rw [wellFormed.get?_eq (Nat.lt_of_lt_of_le less inColumns) inRow]
  rfl

/-- An image laid on another, wherever its corner is and of whatever size. -/
theorem WellFormed.overlayAt?_eq (wellFormed : img.WellFormed) {top : Image} (topToo : top.WellFormed) (x y : Nat) :
    img.overlayAt? top x y = some (img.overlayAt top x y) ∧ (img.overlayAt top x y).WellFormed := by
  obtain ⟨width, height, pixels⟩ := img
  obtain ⟨wide, high, size⟩ := wellFormed
  dsimp only at wide high size
  have rowInside : ∀ row < min top.height (height - y), ∀ column < min top.width (width - x),
      (y + row) * width + x + column < pixels.size := by
    intro row less column lessToo
    rw [size, Nat.mul_comm width, Nat.add_assoc]
    exact Bytes.row_bound (by omega) (by omega)
  obtain ⟨looped, kept⟩ := foldlM_range_eq_some (fun acc : Array Pixel => acc.size = pixels.size) rfl
    (min top.height (height - y)) fun row less acc sized => by
      have blended := topToo.blendRow?_eq acc (Nat.lt_of_lt_of_le less (Nat.min_le_left ..))
        (Nat.min_le_left top.width (width - x)) (sized ▸ rowInside row less)
      exact ⟨blended.1, blended.2.trans sized⟩
  refine ⟨?_, wide, high, kept.trans size⟩
  rw [overlayAt?, looped]
  rfl

theorem size_crop (sheet : Image) (index width height : Nat) (flags : UInt8) :
    (sheet.crop index width height flags).width = width ∧ (sheet.crop index width height flags).height = height := by
  unfold crop
  split
  · exact ⟨rfl, rfl⟩
  · split <;> exact ⟨rfl, rfl⟩

theorem wellFormed_crop (sheet : Image) (index : Nat) (columns : 0 < width) (rows : 0 < height) (flags : UInt8) :
    (sheet.crop index width height flags).WellFormed := by
  unfold crop
  split
  · exact wellFormed_solid columns rows 0
  · split
    · exact wellFormed_solid columns rows 0
    · exact wellFormed_tabulate columns rows _

theorem WellFormed.crop?_eq (wellFormed : img.WellFormed) (index width height : Nat) (flags : UInt8) :
    img.crop? index width height flags = some (img.crop index width height flags) := by
  unfold crop? crop
  split
  · rfl
  · cases img.frameCorner? index width height flags with
    | none => rfl
    | some corner =>
      refine tabulate?_eq fun x _ y _ => ?_
      split
      · next inside => exact wellFormed.get?_eq inside.1 inside.2
      · rfl

/-- Images of one size mixed give such an image. -/
theorem Fits.mix?_eq (fits : img.Fits other) (t : Float) :
    img.mix? other t = some (img.mix other t) ∧ img.Fits (img.mix other t) := by
  unfold mix? mix
  have same : img.Fits img := ⟨fits.base, fits.base, rfl, rfl⟩
  split
  · exact ⟨rfl, same⟩
  · split
    · exact ⟨rfl, fits⟩
    · split
      · exact ⟨rfl, same⟩
      · exact ⟨fits.zip?_eq _, fits.base, fits.base.zip _ other, rfl, rfl⟩

theorem frameLayout_pos {sheetWidth sheetHeight : Nat} (columns : 0 < sheetWidth) (rows : 0 < sheetHeight)
    (params : AnimParams) : 0 < (frameLayout sheetWidth sheetHeight params).width ∧
      0 < (frameLayout sheetWidth sheetHeight params).height := by
  have positive {n : Nat} (some : 0 < n) (w : UInt16) : 0 < if w = 0 then n else w.toNat := by
    split
    · exact some
    · next other => exact Nat.pos_of_ne_zero fun zero => other (UInt16.toNat_inj.mp zero)
  exact ⟨positive columns params.frameWidth, positive rows params.frameHeight⟩

/-- The frame shown has the size of the frames. -/
theorem WellFormed.animate?_eq (wellFormed : img.WellFormed) (params : AnimParams) (seconds : Float) :
    img.animate? params seconds = some (img.animate params seconds) ∧ (img.animate params seconds).WellFormed ∧
      (img.animate params seconds).width = (frameLayout img.width img.height params).width ∧
      (img.animate params seconds).height = (frameLayout img.width img.height params).height := by
  obtain ⟨columns, rows⟩ := frameLayout_pos wellFormed.width_pos wellFormed.height_pos params
  unfold animate? animate
  dsimp only
  generalize frameLayout img.width img.height params = layout at columns rows
  generalize framePosition seconds params.rate layout.count = position
  have frame (index : Nat) := wellFormed_crop img index columns rows params.flags
  have size (index : Nat) := size_crop img index layout.width layout.height params.flags
  have fits : (img.crop position.index layout.width layout.height params.flags).Fits
      (img.crop ((position.index + 1) % layout.count) layout.width layout.height params.flags) :=
    ⟨frame _, frame _, (size _).1.trans (size _).1.symm, (size _).2.trans (size _).2.symm⟩
  simp only [wellFormed.crop?_eq, Option.bind_eq_bind, Option.bind_some, Option.pure_def]
  split
  · obtain ⟨mixed, mix⟩ := fits.mix?_eq position.progress
    exact ⟨mixed, mix.top, mix.width.trans (size _).1, mix.height.trans (size _).2⟩
  · exact ⟨rfl, frame _, size _⟩

end Image

/-- The image that a view shows has area, and just the pixels for it. -/
theorem TextureView.wellFormed_image? {view : TextureView} {img : Image} (shows : view.image? = some img) :
    img.WellFormed := by
  unfold image? at shows
  dsimp only at shows
  split at shows
  · cases shows
  · next usable =>
    cases shows
    rw [not_or, Nat.not_lt] at usable
    have positive := Nat.pos_of_ne_zero usable.1
    refine ⟨Nat.pos_of_mul_pos_right positive, Nat.pos_of_mul_pos_left positive, ?_⟩
    rw [Array.size_extract, Nat.min_eq_left usable.2, Nat.sub_zero]

end TextureLoom
