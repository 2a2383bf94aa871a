import TextureLoom.Atlas.Device
import TextureLoom.Proofs.Atlas.Padding

set_option autoImplicit false

namespace TextureLoom.Atlas

open Bytes

section

variable {source target : ByteArray} {start sourceStride offset targetStride length count : Nat}

@[simp] theorem copyRows_size : (copyRows source start sourceStride offset targetStride length count target).size =
    target.size := by
  unfold copyRows
  induction count with
  | zero => rfl
  | succ count ih => rw [Nat.fold_succ, blit_size, ih]

theorem copyRows_succ : copyRows source start sourceStride offset targetStride length (count + 1) target =
    blit source (start + count * sourceStride)
      (copyRows source start sourceStride offset targetStride length count target) (offset + count * targetStride)
      length := by
  rw [copyRows, Nat.fold_succ]
  rfl

theorem byteAt_copyRows_outside {i : Nat}
    (outside : ∀ row < count, i < offset + row * targetStride ∨ offset + row * targetStride + length ≤ i) :
    byteAt (copyRows source start sourceStride offset targetStride length count target) i = byteAt target i := by
  induction count with
  | zero => rfl
  | succ count ih =>
    rw [copyRows_succ, byteAt_blit_outside (outside count (by omega)), ih fun row less => outside row (by omega)]

/-- Rows that do not overlap each other in the target arrive there whole. -/
theorem byteAt_copyRows {row k : Nat} (has : ∀ row < count, start + row * sourceStride + length ≤ source.size)
    (takes : ∀ row < count, offset + row * targetStride + length ≤ target.size) (apart : length ≤ targetStride)
    (inRange : row < count) (inRow : k < length) :
    byteAt (copyRows source start sourceStride offset targetStride length count target)
      (offset + row * targetStride + k) = byteAt source (start + row * sourceStride + k) := by
  induction count with
  | zero => omega
  | succ count ih =>
    rw [copyRows_succ]
    rcases Nat.lt_succ_iff_lt_or_eq.mp inRange with earlier | rfl
    · have next : (row + 1) * targetStride ≤ count * targetStride := Nat.mul_le_mul_right _ earlier
      rw [Nat.succ_mul] at next
      rw [byteAt_blit_outside (by omega)]
      exact ih (fun row less => has row (by omega)) (fun row less => takes row (by omega)) earlier
    · rw [byteAt_blit (has row (by omega)) (by rw [copyRows_size]; exact takes row (by omega)), if_pos (by omega)]
      congr 1
      omega

end

/-! Texels copied into a rectangle of a square. -/

section

variable {source target : ByteArray} {start stride offset side x y width height : Nat}

theorem texelAt_copyRows {i j : Nat} (has : ∀ row < height, start + row * stride + width * 4 ≤ source.size)
    (whole : target.size = side * side * 4) (place : offset = (y * side + x) * 4) (columns : x + width ≤ side)
    (rows : y + height ≤ side) (column : i < width) (row : j < height) :
    texelAt (copyRows source start stride offset (side * 4) (width * 4) height target)
        (((y + j) * side + (x + i)) * 4) = texelAt source (start + j * stride + i * 4) := by
  apply texelAt_congr
  intro k channel
  have takes : ∀ row < height, offset + row * (side * 4) + width * 4 ≤ target.size := by
    intro row less
    have last : (y + row + 1) * side ≤ side * side := Nat.mul_le_mul_right _ (by omega)
    rw [Nat.succ_mul, Nat.add_mul] at last
    have product : row * (side * 4) = row * side * 4 := by rw [Nat.mul_assoc]
    omega
  have position : ((y + j) * side + (x + i)) * 4 + k = offset + j * (side * 4) + (i * 4 + k) := by
    rw [Nat.add_mul y, ← Nat.mul_assoc j, place]
    omega
  rw [position, byteAt_copyRows has takes (by omega) row (row_bound column channel), Nat.add_assoc _ (i * 4) k]

theorem texelAt_copyRows_outside {column row : Nat} (place : offset = (y * side + x) * 4) (columns : x + width ≤ side)
    (inColumns : column < side) (outside : column < x ∨ x + width ≤ column ∨ row < y ∨ y + height ≤ row) :
    texelAt (copyRows source start stride offset (side * 4) (width * 4) height target) ((row * side + column) * 4) =
      texelAt target ((row * side + column) * 4) := by
  apply texelAt_congr
  intro k channel
  apply byteAt_copyRows_outside
  intro copied less
  -- a texel that a copied row covers is in that row of the rectangle, and in one of its columns
  by_cases covered : offset + copied * (side * 4) ≤ (row * side + column) * 4 + k ∧
      (row * side + column) * 4 + k < offset + copied * (side * 4) + width * 4
  · have product : copied * (side * 4) = copied * side * 4 := by rw [Nat.mul_assoc]
    have lower : (y + copied) * side + x ≤ row * side + column := by
      rw [Nat.add_mul]
      omega
    have upper : row * side + column < (y + copied) * side + x + width := by
      rw [Nat.add_mul]
      omega
    obtain ⟨c, split⟩ := Nat.exists_eq_add_of_le lower
    have rowOf := (row_div_mod row inColumns).1
    have columnOf := (row_div_mod row inColumns).2
    rw [split, Nat.add_assoc] at rowOf columnOf
    have copiedOf := row_div_mod (y + copied) (show x + c < side by omega)
    omega
  · omega

end

namespace DeviceImage

/-- There is a place for each layer, and layers that were written to are whole. -/
structure WellFormed (img : DeviceImage) : Prop where
  layers : img.texels.size = img.layers
  sized : ∀ layer bytes, img.layer? layer = some bytes → bytes.size = img.side * img.side * 4

/-- The bytes of a layer, zeros where nothing was written to it. -/
def bytesOf (img : DeviceImage) (layer : Nat) : ByteArray :=
  (img.layer? layer).getD (zeros (img.side * img.side * 4))

theorem WellFormed.bytesOf_size {img : DeviceImage} (wellFormed : img.WellFormed) (layer : Nat) :
    (img.bytesOf layer).size = img.side * img.side * 4 := by
  unfold bytesOf
  rcases written : img.layer? layer with _ | bytes
  · exact zeros_size _
  · exact wellFormed.sized layer bytes written

/-- Offsets in images of an allowed size are no 32-bit words that wrap around. -/
theorem offset_lt {side x y : Nat} (small : side ≤ largestSide) (column : x < side) (row : y < side) :
    (y * side + x) * 4 < 0x100000000 := by
  have index := Nat.lt_of_lt_of_le (row_bound row column) (Nat.mul_le_mul small small)
  rw [largestSide] at index
  omega

theorem texel?_eq_some_of_lt {img : DeviceImage} {layer x y : Nat} (fits : (y * img.side + x) * 4 < 0x100000000)
    (inLayers : layer < img.layers) (column : x < img.side) (row : y < img.side) :
    img.texel? layer x y = some (texelAt (img.bytesOf layer) ((y * img.side + x) * 4)) := by
  rw [texel?, if_neg (by omega)]
  have wrapped := Nat.mod_eq_of_lt fits
  unfold bytesOf
  rcases img.layer? layer with _ | bytes
  · simp [texelAt]
  · simp only [texelOf, texelAt, wrapped, Option.getD_some, List.map_cons, List.map_nil, Nat.add_zero]

theorem texel?_eq_some {img : DeviceImage} {layer x y : Nat} (small : img.side ≤ largestSide)
    (inLayers : layer < img.layers) (column : x < img.side) (row : y < img.side) :
    img.texel? layer x y = some (texelAt (img.bytesOf layer) ((y * img.side + x) * 4)) :=
  texel?_eq_some_of_lt (offset_lt small column row) inLayers column row

@[simp] theorem modifyLayer_side (img : DeviceImage) (layer : Nat) (f : ByteArray → ByteArray) :
    (img.modifyLayer layer f).side = img.side := rfl

@[simp] theorem modifyLayer_layers (img : DeviceImage) (layer : Nat) (f : ByteArray → ByteArray) :
    (img.modifyLayer layer f).layers = img.layers := rfl

@[simp] theorem modifyLayer_layout (img : DeviceImage) (layer : Nat) (f : ByteArray → ByteArray) :
    (img.modifyLayer layer f).layout = img.layout := rfl

theorem layer?_modifyLayer (img : DeviceImage) (layer : Nat) (f : ByteArray → ByteArray) (other : Nat) :
    (img.modifyLayer layer f).layer? other =
      if other = layer ∧ layer < img.texels.size then some (f (img.bytesOf layer)) else img.layer? other := by
  unfold layer? modifyLayer
  simp only [Array.getElem?_modify]
  by_cases same : layer = other
  · subst same
    by_cases bound : layer < img.texels.size
    · simp only [bytesOf, layer?, Array.getElem?_eq_getElem bound, bound, ↓reduceIte, true_and, Option.map_some,
        Option.join_some]
      cases img.texels[layer] <;> rfl
    · simp [bound]
  · simp [same, Ne.symm same]

theorem bytesOf_modifyLayer (img : DeviceImage) (layer : Nat) (f : ByteArray → ByteArray) (other : Nat) :
    (img.modifyLayer layer f).bytesOf other =
      if other = layer ∧ layer < img.texels.size then f (img.bytesOf layer) else img.bytesOf other := by
  rw [bytesOf, layer?_modifyLayer]
  split
  · rfl
  · rfl

theorem WellFormed.modifyLayer {img : DeviceImage} (wellFormed : img.WellFormed) (layer : Nat)
    {f : ByteArray → ByteArray} (keeps : ∀ bytes, (f bytes).size = bytes.size) :
    (img.modifyLayer layer f).WellFormed where
  layers := by
    rw [DeviceImage.modifyLayer, Array.size_modify]
    exact wellFormed.layers
  sized := by
    intro other bytes written
    rw [layer?_modifyLayer] at written
    split at written
    · cases written
      rw [keeps, wellFormed.bytesOf_size]
      rfl
    · exact wellFormed.sized other bytes written

theorem wellFormed_create (side layers : Nat) : (create side layers).WellFormed where
  layers := Array.size_replicate
  sized := by
    intro layer bytes written
    simp only [layer?, create, Array.getElem?_replicate] at written
    split at written <;> cases written

end DeviceImage

section

variable {staging : Staging} {target : DeviceImage} {offset layer x y width height : Nat}

@[simp] theorem writeRect_side : (Device.writeRect staging offset layer x y width height target).side = target.side :=
  rfl

@[simp] theorem writeRect_layers :
    (Device.writeRect staging offset layer x y width height target).layers = target.layers := rfl

@[simp] theorem writeRect_layout :
    (Device.writeRect staging offset layer x y width height target).layout = target.layout := rfl

theorem writeRect_wellFormed (wellFormed : target.WellFormed) :
    (Device.writeRect staging offset layer x y width height target).WellFormed :=
  wellFormed.modifyLayer layer fun _ => copyRows_size

theorem bytesOf_writeRect (other : Nat) :
    (Device.writeRect staging offset layer x y width height target).bytesOf other =
      if other = layer ∧ layer < target.texels.size then
        copyRows staging.bytes offset (width * 4) ((y * target.side + x) * 4) (target.side * 4) (width * 4) height
          (target.bytesOf layer)
      else target.bytesOf other := DeviceImage.bytesOf_modifyLayer ..

/-- An upload in range stores the staged texels in its rectangle. -/
theorem texelAt_writeRect {i j : Nat} (wellFormed : target.WellFormed) (inLayers : layer < target.layers)
    (columns : x + width ≤ target.side) (rows : y + height ≤ target.side)
    (staged : offset + width * height * 4 ≤ staging.size) (column : i < width) (row : j < height) :
    texelAt ((Device.writeRect staging offset layer x y width height target).bytesOf layer)
        (((y + j) * target.side + (x + i)) * 4) = texelAt staging.bytes (offset + (j * width + i) * 4) := by
  have inStaging : ∀ row < height, offset + row * (width * 4) + width * 4 ≤ staging.bytes.size := by
    intro row less
    have last : (row + 1) * (width * 4) ≤ height * (width * 4) := Nat.mul_le_mul_right _ less
    have total : height * (width * 4) = width * height * 4 := by
      rw [← Nat.mul_assoc, Nat.mul_comm height]
    rw [Nat.succ_mul] at last
    rw [Staging.size] at staged
    omega
  have position : offset + (j * width + i) * 4 = offset + j * (width * 4) + i * 4 := by
    rw [← Nat.mul_assoc j]
    omega
  rw [bytesOf_writeRect, if_pos ⟨rfl, by rw [wellFormed.layers]; exact inLayers⟩, position]
  exact texelAt_copyRows inStaging (wellFormed.bytesOf_size layer) rfl columns rows column row

/-- An upload stores nothing outside its rectangle. -/
theorem texelAt_writeRect_outside {other column row : Nat} (columns : x + width ≤ target.side)
    (inColumns : column < target.side)
    (outside : other ≠ layer ∨ column < x ∨ x + width ≤ column ∨ row < y ∨ y + height ≤ row) :
    texelAt ((Device.writeRect staging offset layer x y width height target).bytesOf other)
        ((row * target.side + column) * 4) = texelAt (target.bytesOf other) ((row * target.side + column) * 4) := by
  rw [bytesOf_writeRect]
  split
  · next same =>
    obtain ⟨rfl, _⟩ := same
    exact texelAt_copyRows_outside rfl columns inColumns (outside.resolve_left fun other => other rfl)
  · rfl

/-- An upload in range puts the staged texels into its rectangle. -/
theorem texel?_writeRect {i j : Nat} (wellFormed : target.WellFormed) (small : target.side ≤ largestSide)
    (inLayers : layer < target.layers) (columns : x + width ≤ target.side) (rows : y + height ≤ target.side)
    (staged : offset + width * height * 4 ≤ staging.size) (column : i < width) (row : j < height) :
    (Device.writeRect staging offset layer x y width height target).texel? layer (x + i) (y + j) =
      some (texelAt staging.bytes (offset + (j * width + i) * 4)) := by
  rw [DeviceImage.texel?_eq_some (by simpa using small) (by simpa using inLayers) (by simp only [writeRect_side]; omega)
    (by simp only [writeRect_side]; omega), writeRect_side,
    texelAt_writeRect wellFormed inLayers columns rows staged column row]

/-- An upload changes no texel outside its rectangle. -/
theorem texel?_writeRect_outside {other column row : Nat} (small : target.side ≤ largestSide)
    (columns : x + width ≤ target.side)
    (outside : other ≠ layer ∨ column < x ∨ x + width ≤ column ∨ row < y ∨ y + height ≤ row) :
    (Device.writeRect staging offset layer x y width height target).texel? other column row =
      target.texel? other column row := by
  by_cases inImage : other < target.layers ∧ column < target.side ∧ row < target.side
  · obtain ⟨inLayers, inColumns, inRows⟩ := inImage
    rw [DeviceImage.texel?_eq_some small inLayers inColumns inRows,
      DeviceImage.texel?_eq_some (by simpa using small) (by simpa using inLayers) (by simpa using inColumns)
        (by simpa using inRows), writeRect_side, texelAt_writeRect_outside columns inColumns outside]
  · rw [DeviceImage.texel?, DeviceImage.texel?, writeRect_side, writeRect_layers, if_pos (by omega), if_pos (by omega)]

end

section

variable {source target : DeviceImage} {extent count : Nat}

theorem copyLayers_succ : Device.copyLayers source extent (count + 1) target =
    match source.layer? count with
    | none => Device.copyLayers source extent count target
    | some bytes => (Device.copyLayers source extent count target).modifyLayer count
        (copyRows bytes 0 (source.side * 4) 0 ((Device.copyLayers source extent count target).side * 4) (extent * 4)
          extent) := by
  rw [Device.copyLayers, Nat.fold_succ]
  rfl

@[simp] theorem copyLayers_side : (Device.copyLayers source extent count target).side = target.side := by
  induction count with
  | zero => rfl
  | succ count ih =>
    rw [copyLayers_succ]
    split <;> simpa using ih

@[simp] theorem copyLayers_layers : (Device.copyLayers source extent count target).layers = target.layers := by
  induction count with
  | zero => rfl
  | succ count ih =>
    rw [copyLayers_succ]
    split <;> simpa using ih

@[simp] theorem copyLayers_layout : (Device.copyLayers source extent count target).layout = target.layout := by
  induction count with
  | zero => rfl
  | succ count ih =>
    rw [copyLayers_succ]
    split <;> simpa using ih

theorem copyLayers_wellFormed (wellFormed : target.WellFormed) :
    (Device.copyLayers source extent count target).WellFormed := by
  induction count with
  | zero => exact wellFormed
  | succ count ih =>
    rw [copyLayers_succ]
    split
    · exact ih
    · exact ih.modifyLayer count fun _ => copyRows_size

theorem bytesOf_copyLayers (wellFormed : target.WellFormed) (inTarget : count ≤ target.layers) (layer : Nat) :
    (Device.copyLayers source extent count target).bytesOf layer =
      match if layer < count then source.layer? layer else none with
      | none => target.bytesOf layer
      | some bytes => copyRows bytes 0 (source.side * 4) 0 (target.side * 4) (extent * 4) extent
          (target.bytesOf layer) := by
  induction count with
  | zero => rfl
  | succ count ih =>
    have earlier := ih (by omega)
    rw [copyLayers_succ]
    by_cases last : layer = count
    · subst last
      rw [if_neg (Nat.lt_irrefl _)] at earlier
      rw [if_pos (Nat.lt_succ_self _)]
      split
      · exact earlier
      · have whole : (Device.copyLayers source extent layer target).WellFormed := copyLayers_wellFormed wellFormed
        have size := whole.layers
        rw [copyLayers_layers] at size
        rw [DeviceImage.bytesOf_modifyLayer, if_pos ⟨rfl, by omega⟩, earlier, copyLayers_side]
    · have same : (layer < count + 1) = (layer < count) := by
        apply propext
        omega
      simp only [same]
      split
      · exact earlier
      · rw [DeviceImage.bytesOf_modifyLayer, if_neg (by omega)]
        exact earlier

/-- A copy in range stores the texels of the layers that were written to. -/
theorem texelAt_copyLayers {layer column row : Nat} {bytes : ByteArray} (sourceWellFormed : source.WellFormed)
    (wellFormed : target.WellFormed) (inSquare : extent ≤ min source.side target.side)
    (inTarget : count ≤ target.layers) (copied : layer < count) (written : source.layer? layer = some bytes) (inColumns : column < extent)
    (inRows : row < extent) :
    texelAt ((Device.copyLayers source extent count target).bytesOf layer) ((row * target.side + column) * 4) =
      texelAt bytes ((row * source.side + column) * 4) := by
  have inSource : ∀ row < extent, 0 + row * (source.side * 4) + extent * 4 ≤ bytes.size := by
    intro row less
    have last : (row + 1) * (source.side * 4) ≤ source.side * (source.side * 4) := Nat.mul_le_mul_right _ (by omega)
    rw [Nat.succ_mul, ← Nat.mul_assoc source.side, ← sourceWellFormed.sized layer bytes written] at last
    omega
  have corner : 0 = (0 * target.side + 0) * 4 := by omega
  have texel := texelAt_copyRows inSource (wellFormed.bytesOf_size layer) corner (by omega) (by omega) inColumns inRows
  have position : 0 + row * (source.side * 4) + column * 4 = (row * source.side + column) * 4 := by
    rw [← Nat.mul_assoc]
    omega
  rw [Nat.zero_add, Nat.zero_add, position] at texel
  rw [bytesOf_copyLayers wellFormed inTarget, if_pos copied, written]
  exact texel

/-- A copy stores nothing outside its square, nor in layers of the target that were not written to in the source. -/
theorem texelAt_copyLayers_outside {layer column row : Nat} (wellFormed : target.WellFormed)
    (inSquare : extent ≤ target.side) (inTarget : count ≤ target.layers) (inColumns : column < target.side)
    (outside : count ≤ layer ∨ extent ≤ column ∨ extent ≤ row ∨ source.layer? layer = none) :
    texelAt ((Device.copyLayers source extent count target).bytesOf layer) ((row * target.side + column) * 4) =
      texelAt (target.bytesOf layer) ((row * target.side + column) * 4) := by
  rw [bytesOf_copyLayers wellFormed inTarget]
  split
  · rfl
  · next bytes written =>
    have corner : 0 = (0 * target.side + 0) * 4 := by omega
    refine texelAt_copyRows_outside corner (by omega) inColumns ?_
    split at written
    · simp only [written, reduceCtorEq, or_false] at outside
      omega
    · cases written

/-- A copy onto a larger image with nothing written to it keeps each texel. -/
theorem texel?_copyLayers {layer column row : Nat} (sourceWellFormed : source.WellFormed)
    (wellFormed : target.WellFormed) (small : target.side ≤ largestSide) (larger : source.side ≤ target.side)
    (inSource : count ≤ source.layers) (inTarget : count ≤ target.layers)
    (blank : ∀ layer, target.layer? layer = none) (copied : layer < count) (inColumns : column < source.side)
    (inRows : row < source.side) :
    (Device.copyLayers source source.side count target).texel? layer column row = source.texel? layer column row := by
  rw [DeviceImage.texel?_eq_some (by omega) (by omega) inColumns inRows,
    DeviceImage.texel?_eq_some (by simpa using small) (by simp only [copyLayers_layers]; omega)
      (by simp only [copyLayers_side]; omega) (by simp only [copyLayers_side]; omega), copyLayers_side]
  congr 1
  rcases written : source.layer? layer with _ | bytes
  · rw [bytesOf_copyLayers wellFormed inTarget, if_pos copied, written]
    simp [texelAt, DeviceImage.bytesOf, blank, written]
  · rw [texelAt_copyLayers sourceWellFormed wellFormed (by omega) inTarget copied written inColumns inRows,
      DeviceImage.bytesOf, written, Option.getD_some]

end

end TextureLoom.Atlas
