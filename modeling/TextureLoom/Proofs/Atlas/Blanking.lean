import TextureLoom.Proofs.Atlas.Commands

set_option autoImplicit false

namespace TextureLoom.Atlas

open Bytes

namespace DeviceImage

/-- The image with the bytes of every layer at hand, zeros for a layer that nothing was written to. -/
def blanked (img : DeviceImage) : DeviceImage :=
  let fresh := zeros (img.side * img.side * 4)
  { img with texels := img.texels.map fun bytes? => some (bytes?.getD fresh) }

variable {img source target : DeviceImage} {layer x y extent count : Nat}

@[simp] theorem blanked_side (img : DeviceImage) : img.blanked.side = img.side := rfl

@[simp] theorem blanked_layers (img : DeviceImage) : img.blanked.layers = img.layers := rfl

@[simp] theorem blanked_layout (img : DeviceImage) : img.blanked.layout = img.layout := rfl

@[simp] theorem blanked_texels_size (img : DeviceImage) : img.blanked.texels.size = img.texels.size := Array.size_map

theorem layer?_blanked (img : DeviceImage) (layer : Nat) :
    img.blanked.layer? layer = if layer < img.texels.size then some (img.bytesOf layer) else none := by
  rw [layer?, blanked, Array.getElem?_map]
  split
  · rename_i inside
    rw [bytesOf, layer?, Array.getElem?_eq_getElem inside]
    rfl
  · rename_i outside
    rw [Array.getElem?_eq_none (Nat.not_lt.mp outside)]
    rfl

theorem bytesOf_blanked (img : DeviceImage) (layer : Nat) : img.blanked.bytesOf layer = img.bytesOf layer := by
  rw [bytesOf, layer?_blanked]
  split
  · rfl
  · rename_i outside
    rw [bytesOf, layer?, Array.getElem?_eq_none (Nat.not_lt.mp outside)]
    rfl

theorem WellFormed.blanked (whole : img.WellFormed) : img.blanked.WellFormed where
  layers := by rw [blanked_texels_size, whole.layers, blanked_layers]
  sized := by
    intro layer bytes written
    rw [layer?_blanked] at written
    split at written
    · cases written
      exact whole.bytesOf_size layer
    · cases written

/-- A texel of a layer that nothing was written to reads as transparent black, and so do zeros. -/
theorem texel?_blanked (img : DeviceImage) (layer x y : Nat) : img.blanked.texel? layer x y = img.texel? layer x y := by
  rw [texel?, texel?, layer?_blanked, blanked_side, blanked_layers]
  split
  · rfl
  · cases written : img.layer? layer with
    | some bytes =>
      have inside : layer < img.texels.size := by
        refine Nat.lt_of_not_le fun outside => ?_
        rw [layer?, Array.getElem?_eq_none outside] at written
        cases written
      rw [if_pos inside, bytesOf, written]
      rfl
    | none =>
      rw [bytesOf, written]
      split
      · rename_i bytes found
        split at found
        · cases found
        · rfl
      · rename_i bytes found
        split at found
        · cases found
          simp [texelOf]
        · cases found

theorem blanked_modifyLayer (img : DeviceImage) (layer : Nat) (f : ByteArray → ByteArray) :
    (img.modifyLayer layer f).blanked = img.blanked.modifyLayer layer f := by
  unfold blanked modifyLayer
  simp only [DeviceImage.mk.injEq, true_and]
  apply Array.ext_getElem?
  intro i
  rw [Array.getElem?_map, Array.getElem?_modify, Array.getElem?_modify, Array.getElem?_map]
  split
  · rw [Option.map_map, Option.map_map]
    congr 1
    funext bytes?
    cases bytes? <;> rfl
  · rfl

/-- Only the bytes of the layers count, not whether they were at hand. -/
theorem blanked_modifyLayer_of_eq {f : ByteArray → ByteArray} (same : f (img.bytesOf layer) = img.bytesOf layer) :
    (img.modifyLayer layer f).blanked = img.blanked := by
  have sizes : (img.modifyLayer layer f).blanked.texels.size = img.blanked.texels.size := by
    simp only [blanked_texels_size, modifyLayer, Array.size_modify]
  have texels : (img.modifyLayer layer f).blanked.texels = img.blanked.texels := by
    apply Array.ext sizes
    intro i bound inside
    rw [blanked_texels_size] at inside
    have held (other : DeviceImage) (inOther : i < other.blanked.texels.size) :
        other.blanked.texels[i] = some (other.bytesOf i) := by
      simp only [blanked, Array.getElem_map, bytesOf, layer?]
      rw [Array.getElem?_eq_getElem]
      rfl
    rw [held, held, bytesOf_modifyLayer]
    split
    · rename_i here
      rw [here.1, same]
    · rfl
  have sides : (img.modifyLayer layer f).blanked = { img.blanked with
      texels := (img.modifyLayer layer f).blanked.texels } := rfl
  rw [sides, texels]

/-- The bytes of a layer in the top left square that a copy covers are all zero. -/
def BlankIn (img : DeviceImage) (extent layer : Nat) : Prop :=
  ∀ row < extent, ∀ k < extent * 4, byteAt (img.bytesOf layer) (row * (img.side * 4) + k) = 0

instance (img : DeviceImage) (extent layer : Nat) : Decidable (img.BlankIn extent layer) :=
  inferInstanceAs (Decidable (∀ row < extent, ∀ k < extent * 4, _))

/-- Each layer of the source that nothing was written to is copied where the target is blank already. -/
def Carries (source target : DeviceImage) (extent count : Nat) : Prop :=
  ∀ layer < count, source.layer? layer = none → target.BlankIn extent layer

instance (source target : DeviceImage) (extent count : Nat) : Decidable (source.Carries target extent count) :=
  inferInstanceAs (Decidable (∀ layer < count, source.layer? layer = none → _))

theorem layer?_copyLayers_of_le {layer : Nat} (later : count ≤ layer) :
    (Device.copyLayers source extent count target).layer? layer = target.layer? layer := by
  induction count with
  | zero => rfl
  | succ count ih =>
    rw [copyLayers_succ]
    split
    · exact ih (by omega)
    · rw [layer?_modifyLayer, if_neg (by omega), ih (by omega)]

end DeviceImage

theorem blit_zeros {size start offset count : Nat} {target : ByteArray}
    (blank : ∀ k < count, byteAt target (offset + k) = 0) :
    blit (zeros size) start target offset count = target := by
  by_cases inRange : start + count ≤ (zeros size).size ∧ offset + count ≤ target.size
  · apply ext_byteAt (blit_size _ _ _ _ _)
    intro i _
    rw [byteAt_blit inRange.1 inRange.2]
    split
    · rename_i inside
      have zero := blank (i - offset) (by omega)
      rw [Nat.add_sub_cancel' inside.1] at zero
      rw [byteAt_zeros, zero]
    · rfl
  · rw [blit, if_neg inRange]

/-- Zeros copied onto zeros. -/
theorem copyRows_zeros {size start sourceStride offset targetStride length count : Nat} {target : ByteArray}
    (blank : ∀ row < count, ∀ k < length, byteAt target (offset + row * targetStride + k) = 0) :
    copyRows (zeros size) start sourceStride offset targetStride length count target = target := by
  induction count with
  | zero => rfl
  | succ count ih =>
    rw [copyRows_succ, ih fun row less => blank row (by omega)]
    exact blit_zeros (blank count (by omega))

namespace DeviceImage

variable {source target : DeviceImage} {extent count : Nat}

/-- With the bytes of all layers at hand, a copy does the same as without where it carries each layer. -/
theorem blanked_copyLayers (carries : source.Carries target extent count) :
    (Device.copyLayers source extent count target).blanked =
      Device.copyLayers source.blanked extent count target.blanked := by
  induction count with
  | zero => rfl
  | succ count ih =>
    have earlier := ih fun layer less => carries layer (by omega)
    rw [copyLayers_succ, copyLayers_succ, layer?_blanked, ← earlier, blanked_side, blanked_side]
    cases written : source.layer? count with
    | none =>
      -- with the bytes at hand zeros are copied here, and the target has zeros there already
      have blank := carries count (by omega) written
      have untouched : (Device.copyLayers source extent count target).bytesOf count = target.bytesOf count := by
        rw [bytesOf, bytesOf, layer?_copyLayers_of_le (Nat.le_refl count), copyLayers_side]
      by_cases inside : count < source.texels.size
      · rw [if_pos inside]
        dsimp only
        rw [← blanked_modifyLayer]
        refine (blanked_modifyLayer_of_eq ?_).symm
        rw [untouched, copyLayers_side, bytesOf, written]
        refine copyRows_zeros fun row less k inRow => ?_
        rw [Nat.zero_add]
        exact blank row less k inRow
      · rw [if_neg inside]
    | some bytes =>
      have inside : count < source.texels.size := by
        refine Nat.lt_of_not_le fun outside => ?_
        rw [layer?, Array.getElem?_eq_none outside] at written
        cases written
      rw [if_pos inside, bytesOf, written]
      exact blanked_modifyLayer _ _ _

/-- Where a copy passes over a layer that is not blank in the target, some texel there tells it from one that does
not. -/
theorem texel?_copyLayers_ne {layer row k : Nat} (wholeSource : source.WellFormed) (whole : target.WellFormed)
    (narrow : target.side ≤ 0x8000) (small : extent ≤ min source.side target.side)
    (few : count ≤ min source.layers target.layers) (copied : layer < count) (unwritten : source.layer? layer = none)
    (inRows : row < extent) (inRow : k < extent * 4)
    (marked : byteAt (target.bytesOf layer) (row * (target.side * 4) + k) ≠ 0) :
    (Device.copyLayers source.blanked extent count target.blanked).texel? layer (k / 4) row ≠
      (Device.copyLayers source extent count target).texel? layer (k / 4) row := by
  intro same
  have column : k / 4 < target.side := by omega
  have inColumn : row < target.side := by omega
  have fits : (row * target.side + k / 4) * 4 < 0x100000000 := by
    have index := Nat.lt_of_lt_of_le (row_bound inColumn column) (Nat.mul_le_mul narrow narrow)
    omega
  rw [texel?_eq_some_of_lt (by simpa using fits) (by simp only [copyLayers_layers, blanked_layers]; omega)
      (by simpa using column) (by simpa using inColumn),
    texel?_eq_some_of_lt (by simpa using fits) (by simp only [copyLayers_layers]; omega) (by simpa using column)
      (by simpa using inColumn), Option.some.injEq] at same
  have byte := byteAt_of_texelAt same (Nat.mod_lt k (by decide))
  have position : (row * target.side + k / 4) * 4 + k % 4 = row * (target.side * 4) + k := by
    rw [← Nat.mul_assoc]
    omega
  simp only [copyLayers_side, blanked_side] at byte
  have zerosAtHand : source.blanked.layer? layer = some (zeros (source.side * source.side * 4)) := by
    rw [layer?_blanked, if_pos (by rw [wholeSource.layers]; omega), bytesOf, unwritten]
    rfl
  rw [position, bytesOf_copyLayers whole.blanked (by rw [blanked_layers]; omega), if_pos copied, zerosAtHand,
    bytesOf_copyLayers whole (by omega), if_pos copied, unwritten] at byte
  have inSource : ∀ row < extent,
      0 + row * (source.side * 4) + extent * 4 ≤ (zeros (source.side * source.side * 4)).size := by
    intro row less
    rw [zeros_size]
    have last : (row + 1) * (source.side * 4) ≤ source.side * (source.side * 4) := Nat.mul_le_mul_right _ (by omega)
    rw [Nat.succ_mul, ← Nat.mul_assoc source.side] at last
    omega
  have inTarget : ∀ row < extent,
      0 + row * (target.side * 4) + extent * 4 ≤ (target.blanked.bytesOf layer).size := by
    intro row less
    rw [bytesOf_blanked, whole.bytesOf_size]
    have last : (row + 1) * (target.side * 4) ≤ target.side * (target.side * 4) := Nat.mul_le_mul_right _ (by omega)
    rw [Nat.succ_mul, ← Nat.mul_assoc target.side] at last
    omega
  have covered := byteAt_copyRows inSource inTarget (by omega) inRows inRow
  rw [Nat.zero_add, Nat.zero_add, byteAt_zeros] at covered
  exact marked (byte.symm.trans covered)

end DeviceImage

namespace Device

/-- A copy passes over a layer that nothing was written to, where the target is not blank. -/
def Skips (d : Device) : Command → Prop
  | .copyImage source target extent layers =>
    ∃ img ∈ d.images.get? source, ∃ onto ∈ d.images.get? target, ¬img.Carries onto extent layers
  | _ => False

instance (d : Device) : DecidablePred d.Skips
  | .copyImage source target _ _ =>
    inferInstanceAs (Decidable (∃ img ∈ d.images.get? source, ∃ onto ∈ d.images.get? target, _))
  | .imageBarrier .. | .copyToImage .. | .copyToBuffer .. | .bufferBarrier .. => isFalse id

/-- Such a copy is among the commands up to the first that is refused. -/
def SkipsIn (staging : Staging) (d : Device) : List Command → Prop
  | [] => False
  | command :: rest =>
    d.violation? staging command = none ∧ (d.Skips command ∨ SkipsIn staging (d.apply staging command) rest)

instance decidableSkipsIn (staging : Staging) (d : Device) : (commands : List Command) →
    Decidable (d.SkipsIn staging commands)
  | [] => isFalse id
  | command :: rest =>
    have := decidableSkipsIn staging (d.apply staging command) rest
    inferInstanceAs (Decidable (d.violation? staging command = none ∧ _))

/-- The device with the bytes of all layers of its images at hand. -/
def blanked (d : Device) : Device := { d with images := d.images.map fun (handle, img) => (handle, img.blanked) }

variable {d middle : Device} {staging : Staging} {command : Command} {commands : List Command} {handle : Nat}

theorem get?_blanked (d : Device) (handle : Nat) :
    d.blanked.images.get? handle = (d.images.get? handle).map DeviceImage.blanked := Table.get?_map _ _ _

theorem layout?_blanked (d : Device) : d.blanked.layout? = d.layout? := by
  funext handle
  rw [layout?, get?_blanked, Option.map_map]
  rfl

theorem extent?_blanked (d : Device) : d.blanked.extent? = d.extent? := by
  funext handle
  rw [extent?, get?_blanked, Option.map_map]
  rfl

theorem texel?_blanked (d : Device) : d.blanked.texel? = d.texel? := by
  funext handle layer x y
  rw [texel?, texel?, get?_blanked, Option.bind_map]
  congr 1
  funext img
  exact img.texel?_blanked layer x y

/-- Whether layers are at hand has no part in what is refused. -/
theorem violation?_blanked (d : Device) (staging : Staging) (command : Command) :
    d.blanked.violation? staging command = d.violation? staging command := by
  have layouts : d.blanked.layoutViolation? = d.layoutViolation? := by
    funext handle wanted
    rw [layoutViolation?, layoutViolation?, layout?_blanked]
  cases command with
  | imageBarrier image old new layers => rw [violation?, violation?, layout?_blanked]
  | copyImage source target extent layers =>
    rw [violation?, violation?, layouts, copyViolation?, copyViolation?, extent?_blanked]
  | copyToImage offset target layer x y width height =>
    rw [violation?, violation?, layouts, uploadViolation?, uploadViolation?, get?_blanked]
    cases d.images.get? target <;> rfl
  | copyToBuffer offset target count => rfl
  | bufferBarrier buffer => rfl

theorem modifyImage_blanked {f g : DeviceImage → DeviceImage}
    (same : ∀ img, d.images.get? handle = some img → (f img).blanked = g img.blanked) :
    (d.modifyImage handle f).blanked = d.blanked.modifyImage handle g := by
  rw [modifyImage, blanked, Table.map_modify same]
  rfl

/-- A command does the same to a device with all layers at hand, unless it is a copy that passes over a layer. -/
theorem apply_blanked (carries : ¬d.Skips command) :
    (d.apply staging command).blanked = d.blanked.apply staging command := by
  cases command with
  | imageBarrier image old new layers => exact modifyImage_blanked fun _ _ => rfl
  | copyImage source target extent layers =>
    rw [apply, apply, get?_blanked]
    cases found : d.images.get? source with
    | none => rfl
    | some img =>
      refine modifyImage_blanked fun onto isOnto => DeviceImage.blanked_copyLayers ?_
      exact of_not_not fun skips => carries ⟨img, found, onto, isOnto, skips⟩
  | copyToImage offset target layer x y width height =>
    exact modifyImage_blanked fun img _ => DeviceImage.blanked_modifyLayer _ _ _
  | copyToBuffer offset target count => rfl
  | bufferBarrier buffer => rfl

theorem submit_blanked (carries : ¬d.SkipsIn staging commands) :
    d.blanked.submit staging commands =
      ((d.submit staging commands).1.blanked, (d.submit staging commands).2) := by
  induction commands generalizing d with
  | nil => rfl
  | cons command rest ih =>
    rw [submit, submit, violation?_blanked]
    cases refused : d.violation? staging command with
    | some violation => rfl
    | none =>
      dsimp only
      rw [← apply_blanked fun skips => carries ⟨refused, .inl skips⟩]
      exact ih fun later => carries ⟨refused, .inr later⟩

end Device

end TextureLoom.Atlas
