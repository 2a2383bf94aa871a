import TextureLoom.Proofs.Atlas.FreeSpace
import TextureLoom.Proofs.Image.Accessing

set_option autoImplicit false

namespace TextureLoom.Image

open Bytecode (AnimParams)
open Atlas (Rect)

variable {sheet : Image} {params : AnimParams} {width height index other x y : Nat}

/-- Column and row of frame `index` in a layout with `columns` frames in a row. -/
def frameCell (columns : Nat) (params : AnimParams) (index : Nat) : Nat × Nat :=
  if params.isGrid then (index % columns, index / columns)
  else if params.isHorizontal then (index, 0)
  else (0, index)

/-- The places of frame `index`, on a sheet and beyond it. -/
def frameRect (sheetWidth width height : Nat) (params : AnimParams) (index : Nat) : Rect :=
  let cell := frameCell (sheetWidth / width) params index
  ⟨cell.1 * width, cell.2 * height, width, height⟩

/-- The frame is the part of the sheet that lies in the rectangle, and the rectangle lies in the sheet. -/
structure Shows (frame sheet : Image) (r : Rect) : Prop where
  wellFormed : frame.WellFormed
  width : frame.width = r.width
  height : frame.height = r.height
  right : r.right ≤ sheet.width
  bottom : r.bottom ≤ sheet.height
  pixel : ∀ x < r.width, ∀ y < r.height, frame.get x y = sheet.get (r.x + x) (r.y + y)

/-- A place of a frame is blank whatever the pixels of the sheet are. -/
def Pads (sheet : Image) (index width height : Nat) (flags : UInt8) (x y : Nat) : Prop :=
  ∀ pixels, ({ sheet with pixels := pixels }.crop index width height flags).get x y = 0

/-! ### Cells -/

theorem frameCell_injective {columns : Nat} (same : frameCell columns params index = frameCell columns params other) :
    index = other := by
  unfold frameCell at same
  split at same
  · obtain ⟨column, row⟩ := Prod.mk.inj same
    rw [← Nat.div_add_mod' index columns, ← Nat.div_add_mod' other columns, column, row]
  · split at same
    · exact (Prod.mk.inj same).1
    · exact (Prod.mk.inj same).2

theorem frameCell_of_covers {sheetWidth : Nat} (covers : (frameRect sheetWidth width height params index).Covers x y) :
    frameCell (sheetWidth / width) params index = (x / width, y / height) := by
  obtain ⟨left, right, top, bottom⟩ := covers
  refine Prod.ext ?_ ?_
  · exact (Nat.div_eq_of_lt_le left (by rwa [Nat.succ_mul])).symm
  · exact (Nat.div_eq_of_lt_le top (by rwa [Nat.succ_mul])).symm

/-- Frames of one sheet have no place in common. -/
theorem apart_of_ne (different : index ≠ other) (sheetWidth width height : Nat) (params : AnimParams) :
    (frameRect sheetWidth width height params index).Apart (frameRect sheetWidth width height params other) := by
  intro x y covers coversToo
  exact different (frameCell_injective ((frameCell_of_covers covers).trans (frameCell_of_covers coversToo).symm))

/-- A frame lies in a sheet just if there are more whole columns and rows of frames than stand before it. -/
theorem inside_iff {size total cell : Nat} (positive : 0 < size) :
    cell * size + size ≤ total ↔ cell < total / size := by
  rw [← Nat.succ_mul, ← Nat.le_div_iff_mul_le positive]
  exact Iff.rfl

/-! ### The number of frames -/

/-- The frames that are counted are those that lie in the sheet. -/
theorem lt_count_iff {sheetWidth sheetHeight : Nat} {layout : FrameLayout}
    (isLayout : frameLayout sheetWidth sheetHeight params = layout) (derived : params.frames = 0)
    (word : sheetWidth * sheetHeight < 2 ^ 32) (columns : 0 < layout.width) (rows : 0 < layout.height)
    (wide : layout.width ≤ sheetWidth) (high : layout.height ≤ sheetHeight) (index : Nat) :
    index < layout.count ↔
      (frameCell (sheetWidth / layout.width) params index).1 < sheetWidth / layout.width ∧
        (frameCell (sheetWidth / layout.width) params index).2 < sheetHeight / layout.height := by
  have count : layout.count = max (fittingFrames sheetWidth sheetHeight layout.width layout.height params) 1 := by
    subst isLayout
    simp only [frameLayout, derived, ↓reduceIte]
  have someColumns : 0 < sheetWidth / layout.width := Nat.div_pos wide columns
  have someRows : 0 < sheetHeight / layout.height := Nat.div_pos high rows
  rw [count, fittingFrames, if_neg (by omega), frameCell]
  split
  · have few : sheetWidth / layout.width * (sheetHeight / layout.height) < 0x100000000 :=
      Nat.lt_of_le_of_lt (Nat.mul_le_mul (Nat.div_le_self ..) (Nat.div_le_self ..)) word
    rw [Nat.mod_eq_of_lt few, Nat.max_eq_left (Nat.mul_pos someColumns someRows), Nat.div_lt_iff_lt_mul someColumns,
      Nat.mul_comm]
    exact (and_iff_right (Nat.mod_lt index someColumns)).symm
  · split
    · rw [Nat.max_eq_left someColumns]
      exact (and_iff_left someRows).symm
    · rw [Nat.max_eq_left someRows]
      exact (and_iff_right someColumns).symm

/-! ### Crops -/

theorem get_crop {left top : Nat} {flags : UInt8}
    (corner : sheet.frameCorner? index width height flags = some (left, top)) (column : x < width) (row : y < height) :
    (sheet.crop index width height flags).get x y =
      if left + x < sheet.width ∧ top + y < sheet.height then sheet.get (left + x) (top + y) else 0 := by
  rw [crop, if_neg (by omega), corner]
  exact get_tabulate column row

theorem get_crop_of_none {flags : UInt8} (none : sheet.frameCorner? index width height flags = none)
    (column : x < width) (row : y < height) : (sheet.crop index width height flags).get x y = 0 := by
  rw [crop, if_neg (by omega), none]
  exact get_solid column row

/-- A crop takes the places of the frame; in rows, the frames behind the last row are left out. -/
theorem frameCorner?_eq (sheet : Image) (params : AnimParams) (index height : Nat) (columns : 0 < sheet.width / width) :
    sheet.frameCorner? index width height params.flags =
      if params.isGrid ∧ sheet.height / height ≤ (frameCell (sheet.width / width) params index).2 then none
      else some ((frameRect sheet.width width height params index).x,
        (frameRect sheet.width width height params index).y) := by
  unfold frameCorner? frameRect frameCell
  change (if params.isGrid then _ else if params.isHorizontal then _ else _) = _
  cases params.isGrid
  · simp only [Bool.false_eq_true, false_and, ↓reduceIte]
    cases params.isHorizontal
    · simp only [Bool.false_eq_true, ↓reduceIte, Nat.zero_mul]
    · simp only [↓reduceIte, Nat.zero_mul]
  · simp only [↓reduceIte, true_and]
    have beyond : sheet.width / width = 0 ∨ sheet.height / height = 0 ∨
        sheet.height / height ≤ index / (sheet.width / width) ↔
        sheet.height / height ≤ index / (sheet.width / width) := by
      generalize index / (sheet.width / width) = row
      omega
    simp only [beyond]

/-- A frame whose cell is one of the sheet is shown whole. -/
theorem shows_crop (columns : 0 < width) (rows : 0 < height)
    (inColumns : (frameCell (sheet.width / width) params index).1 < sheet.width / width)
    (inRows : (frameCell (sheet.width / width) params index).2 < sheet.height / height) :
    Shows (sheet.crop index width height params.flags) sheet (frameRect sheet.width width height params index) where
  wellFormed := wellFormed_crop sheet index columns rows params.flags
  width := (size_crop sheet index width height params.flags).1
  height := (size_crop sheet index width height params.flags).2
  right := (inside_iff columns).mpr inColumns
  bottom := (inside_iff rows).mpr inRows
  pixel := by
    intro x column y row
    have right := (inside_iff columns).mpr inColumns
    have bottom := (inside_iff rows).mpr inRows
    have corner := frameCorner?_eq sheet params index height (Nat.zero_lt_of_lt inColumns)
    rw [if_neg fun beyond => Nat.not_le.mpr inRows beyond.2] at corner
    rw [get_crop corner column row, if_pos]
    simp only [frameRect] at column row ⊢
    omega

/-- Of a frame below the last row, the last line is blank. -/
theorem pads_below (someColumns : 0 < sheet.width / width) (rows : 0 < height)
    (below : sheet.height / height ≤ (frameCell (sheet.width / width) params index).2) (column : x < width)
    (last : y + 1 = height) : Pads sheet index width height params.flags x y := by
  intro pixels
  have corner := frameCorner?_eq { sheet with pixels := pixels } params index height someColumns
  have row : y < height := by omega
  split at corner
  · exact get_crop_of_none corner column row
  · have bottom := (inside_iff rows).not.mpr (Nat.not_lt.mpr below)
    rw [get_crop corner column row, if_neg]
    simp only [frameRect] at bottom ⊢
    omega

/-- Of a frame beside the last column, the last column of pixels is blank. -/
theorem pads_beside (someColumns : 0 < sheet.width / width) (columns : 0 < width) (line : params.isGrid = false)
    (beside : sheet.width / width ≤ (frameCell (sheet.width / width) params index).1) (row : y < height)
    (last : x + 1 = width) : Pads sheet index width height params.flags x y := by
  intro pixels
  have corner := frameCorner?_eq { sheet with pixels := pixels } params index height someColumns
  have column : x < width := by omega
  have right := (inside_iff columns).not.mpr (Nat.not_lt.mpr beside)
  rw [if_neg (by simp only [line, Bool.false_eq_true, false_and, not_false_eq_true])] at corner
  rw [get_crop corner column row, if_neg]
  simp only [frameRect] at right ⊢
  omega

/-- Where the number of frames is taken from the sheet, the frames below that number are parts of the sheet that lie in
it, each of them apart from the others; and of the frames from there on, the last line in the direction of the layout is
blank whatever the sheet is. -/
theorem crop_frames {layout : FrameLayout} (isLayout : frameLayout sheet.width sheet.height params = layout)
    (wellFormed : sheet.WellFormed) (word : sheet.width * sheet.height < 2 ^ 32) (derived : params.frames = 0)
    (wide : layout.width ≤ sheet.width) (high : layout.height ≤ sheet.height) :
    (∀ index < layout.count, Shows (sheet.crop index layout.width layout.height params.flags) sheet
      (frameRect sheet.width layout.width layout.height params index)) ∧
    (∀ index < layout.count, ∀ other < layout.count, index ≠ other →
      (frameRect sheet.width layout.width layout.height params index).Apart
        (frameRect sheet.width layout.width layout.height params other)) ∧
    ∀ index ≥ layout.count, ∀ x < layout.width, ∀ y < layout.height,
      (if params.isGrid = false ∧ params.isHorizontal then x + 1 = layout.width else y + 1 = layout.height) →
        Pads sheet index layout.width layout.height params.flags x y := by
  obtain ⟨columns, rows⟩ : 0 < layout.width ∧ 0 < layout.height :=
    isLayout ▸ frameLayout_pos wellFormed.width_pos wellFormed.height_pos params
  have someColumns : 0 < sheet.width / layout.width := Nat.div_pos wide columns
  have someRows : 0 < sheet.height / layout.height := Nat.div_pos high rows
  have counted := lt_count_iff isLayout derived word columns rows wide high
  refine ⟨?_, fun index _ other _ different => apart_of_ne different sheet.width layout.width layout.height params, ?_⟩
  · intro index less
    obtain ⟨inColumns, inRows⟩ := (counted index).mp less
    exact shows_crop columns rows inColumns inRows
  · intro index past x column y row last
    have outside := (counted index).not.mp (Nat.not_lt.mpr past)
    split at last
    · next line =>
      have inRow : (frameCell (sheet.width / layout.width) params index).2 = 0 := by
        simp only [frameCell, line.1, line.2, Bool.false_eq_true, ↓reduceIte]
      exact pads_beside someColumns columns line.1 (by omega) row last
    · next stacked =>
      have inColumn : (frameCell (sheet.width / layout.width) params index).1 < sheet.width / layout.width := by
        unfold frameCell
        split
        · exact Nat.mod_lt index someColumns
        · split
          · next grid horizontal => exact absurd ⟨Bool.eq_false_iff.mpr grid, horizontal⟩ stacked
          · exact someColumns
      exact pads_below someColumns rows (by omega) column last

/-- Six frames in two columns, and a column of pixels beside them. -/
def gridSheet : Image := tabulate 5 3 fun x y => (y * 5 + x).toUInt32

def gridParams : AnimParams := ⟨2, 1, 0, 0, AnimParams.gridFlag⟩

theorem crop_frames_grid :
    frameLayout gridSheet.width gridSheet.height gridParams = ⟨2, 1, 6⟩ ∧ gridSheet.WellFormed ∧
      gridSheet.width * gridSheet.height < 2 ^ 32 ∧ gridParams.frames = 0 ∧
      Shows (gridSheet.crop 5 2 1 gridParams.flags) gridSheet ⟨2, 2, 2, 1⟩ ∧
      Pads gridSheet 6 2 1 gridParams.flags 1 0 := by
  have isLayout : frameLayout gridSheet.width gridSheet.height gridParams = ⟨2, 1, 6⟩ := by decide
  have wellFormed : gridSheet.WellFormed := wellFormed_tabulate (by decide) (by decide) _
  have frames := crop_frames isLayout wellFormed (by decide) rfl (by decide) (by decide)
  have place : frameRect gridSheet.width 2 1 gridParams 5 = ⟨2, 2, 2, 1⟩ := by decide
  refine ⟨isLayout, wellFormed, by decide, rfl, ?_, ?_⟩
  · rw [← place]
    exact frames.1 5 (by decide)
  · exact frames.2.2 6 (by decide) 1 (by decide) 0 (by decide) (by decide)

end TextureLoom.Image
