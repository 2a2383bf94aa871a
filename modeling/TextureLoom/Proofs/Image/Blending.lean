import TextureLoom.Proofs.Image.Accessing

set_option autoImplicit false

namespace TextureLoom

namespace Pixel

/-- A pixel is the word of its channels. -/
theorem pack_channels (p : Pixel) : pack p.alpha p.red p.green p.blue = p := by
  have lowByte : ∀ i < 32, (255#32).getLsbD i = decide (i < 8) := by decide
  apply UInt32.toBitVec_inj.mp
  apply BitVec.eq_of_getLsbD_eq
  intro i inWord
  simp only [pack, alpha, red, green, blue, UInt32.toBitVec_or, UInt32.toBitVec_shiftLeft, UInt32.toBitVec_shiftRight,
    UInt32.toBitVec_and, UInt32.toBitVec_ofNat, BitVec.getLsbD_or, BitVec.getLsbD_and, BitVec.getLsbD_shiftLeft,
    BitVec.getLsbD_ushiftRight, BitVec.shiftLeft_eq', BitVec.ushiftRight_eq', BitVec.toNat_umod, BitVec.toNat_ofNat,
    Nat.reducePow, Nat.reduceMod, inWord, decide_true, Bool.true_and, lowByte i inWord]
  change (!decide (i < 24) && p.toBitVec.getLsbD (24 + (i - 24)) ||
          !decide (i < 16) && (p.toBitVec.getLsbD (16 + (i - 16)) && (255#32).getLsbD (i - 16)) ||
        !decide (i < 8) && (p.toBitVec.getLsbD (8 + (i - 8)) && (255#32).getLsbD (i - 8)) ||
      p.toBitVec.getLsbD i && decide (i < 8)) = p.toBitVec.getLsbD i
  rw [lowByte (i - 16) (by omega), lowByte (i - 8) (by omega)]
  -- each bit stands in one channel
  rcases Nat.lt_or_ge i 8 with inBlue | aboveBlue
  · simp [inBlue, show i < 16 by omega, show i < 24 by omega]
  rcases Nat.lt_or_ge i 16 with inGreen | aboveGreen
  · simp [inGreen, show ¬i < 8 by omega, show i < 24 by omega, show i - 8 < 8 by omega, show 8 + (i - 8) = i by omega]
  rcases Nat.lt_or_ge i 24 with inRed | inAlpha
  · simp [inRed, show ¬i < 8 by omega, show ¬i < 16 by omega, show ¬i - 8 < 8 by omega, show i - 16 < 8 by omega,
      show 16 + (i - 16) = i by omega]
  · simp [show ¬i < 8 by omega, show ¬i < 24 by omega, show ¬i - 8 < 8 by omega, show ¬i - 16 < 8 by omega,
      show 24 + (i - 24) = i by omega]

theorem scale_zero (c : UInt32) : scale c 0 = 0 := by
  rw [scale, UInt32.mul_zero]
  rfl

theorem unscale_mul {c : UInt32} (channel : c ≤ 255) : unscale (c * 255) = c := by
  have bound := UInt32.le_iff_toNat_le.mp channel
  apply UInt32.toNat_inj.mp
  simp only [unscale, UInt32.toNat_div, UInt32.toNat_add, UInt32.toNat_mul, UInt32.reduceToNat] at bound ⊢
  omega

/-- A channel of a pixel on which an opaque one is laid is that of the opaque one. -/
theorem blendChannel_full (alpha base top : UInt32) (channel : top ≤ 255) :
    blendChannel alpha 255 255 base top = top := by
  have whole : scale top 255 = top := unscale_mul channel
  have kept : (top * 255 + 255 / 2) / 255 = top := unscale_mul channel
  rw [blendChannel, UInt32.sub_self, scale_zero, UInt32.add_zero, whole, kept]
  exact if_pos channel

/-- An opaque pixel hides what is under it. -/
theorem blendOver_full (base : Pixel) {top : Pixel} (full : top.alpha = 255) : base.blendOver top = top := by
  have byte (c : UInt32) : c &&& 255 ≤ 255 := by
    rw [UInt32.le_iff_toNat_le, UInt32.toNat_and]
    exact Nat.and_le_right
  have total : (255 : UInt32) + scale base.alpha (255 - 255) = 255 := by
    rw [UInt32.sub_self, scale_zero, UInt32.add_zero]
  calc base.blendOver top
      = pack 255 (blendChannel base.alpha 255 255 base.red top.red)
          (blendChannel base.alpha 255 255 base.green top.green)
          (blendChannel base.alpha 255 255 base.blue top.blue) := by
        rw [blendOver, full, total]
        rfl
    _ = pack top.alpha top.red top.green top.blue := by
        rw [full, blendChannel_full _ _ top.red (byte _), blendChannel_full _ _ top.green (byte _),
          blendChannel_full _ _ top.blue (byte _)]
    _ = top := pack_channels top

/-- Any pixel is changed by some pixel that is laid on it. -/
theorem exists_blendOver_ne (base : Pixel) : ∃ top, base.blendOver top ≠ base := by
  by_cases black : base = 0xff000000
  · refine ⟨0xffffffff, ?_⟩
    rw [blendOver_full base (by decide), black]
    decide
  · refine ⟨0xff000000, ?_⟩
    rw [blendOver_full base (by decide)]
    exact fun same => black same.symm

end Pixel

namespace Image

variable {img top after : Image} {rows x y : Nat}

/-- The rows in `percent` of `height` rows, computed in whole numbers: all of them from 100 on. -/
def share (height percent : Nat) : Nat := height * min percent 100 / 100

/-- `after` is `img` with the last `rows` rows of `top`, of the same size, laid on it. -/
structure BlendsLast (img top after : Image) (rows : Nat) : Prop where
  wellFormed : after.WellFormed
  width : after.width = img.width
  height : after.height = img.height
  blended : ∀ x < img.width, ∀ y < img.height, img.height - rows ≤ y →
    after.get x y = Pixel.blendOver (img.get x y) (top.get x y)
  kept : ∀ x < img.width, ∀ y < img.height - rows, after.get x y = img.get x y

theorem get_lowPart (fits : img.Fits top) (percent : Nat) (column : x < img.width) (row : y < img.height) :
    (img.lowPart top percent).get x y =
      if lowPartStart img.height percent ≤ y then Pixel.blendOver (img.get x y) (top.get x y) else img.get x y := by
  have place : y * img.width + x < img.pixels.size := by
    rw [fits.base.size_eq, Nat.mul_comm img.width]
    exact Bytes.row_bound row column
  have below : y * img.width + x < img.height * img.width := Bytes.row_bound row column
  have fromStart : lowPartStart img.height percent * img.width ≤ y * img.width + x ↔
      lowPartStart img.height percent ≤ y := by
    constructor
    · intro after
      by_contra before
      have rowBefore := Bytes.row_bound (Nat.not_le.mp before) column
      omega
    · intro after
      exact Nat.le_add_right_of_le (Nat.mul_le_mul_right img.width after)
  simp only [lowPart, get, Array.getD_eq_getD_getElem?, Array.getElem?_mapIdx, Array.getElem?_eq_getElem place,
    Option.map_some, Option.getD_some, fits.width, fromStart, below, and_true]

/-- The rows that are blended are those in the word that the product of height and percentage leaves. -/
theorem Fits.blendsLast (fits : img.Fits top) (percent : Nat) :
    BlendsLast img top (img.lowPart top percent) (img.height * min percent 100 % 2 ^ 32 / 100) where
  wellFormed := fits.base.lowPart top percent
  width := rfl
  height := rfl
  blended := by
    intro x column y row last
    exact (get_lowPart fits percent column row).trans (if_pos last)
  kept := by
    intro x column y before
    exact (get_lowPart fits percent column (Nat.lt_of_lt_of_le before (Nat.sub_le ..))).trans
      (if_neg (Nat.not_le.mpr before))

/-- A row that is blended in one account and kept in another shows it below some image. -/
theorem BlendsLast.rows_le {blend : Image → Image} {first second : Nat} (wellFormed : img.WellFormed)
    (within : second ≤ img.height) (one : ∀ top, img.Fits top → BlendsLast img top (blend top) first)
    (other : ∀ top, img.Fits top → BlendsLast img top (blend top) second) : second ≤ first := by
  by_contra more
  have row : img.height - second < img.height - first := by omega
  have inside : img.height - second < img.height := by omega
  obtain ⟨color, changes⟩ := Pixel.exists_blendOver_ne (img.get 0 (img.height - second))
  have fits : img.Fits (solid img.width img.height color) :=
    ⟨wellFormed, wellFormed_solid wellFormed.width_pos wellFormed.height_pos color, rfl, rfl⟩
  have kept := (one _ fits).kept 0 wellFormed.width_pos _ row
  have blended := (other _ fits).blended 0 wellFormed.width_pos _ inside (Nat.le_refl _)
  rw [get_solid wellFormed.width_pos inside] at blended
  exact changes (blended.symm.trans kept)

theorem share_le (height percent : Nat) : share height percent ≤ height := by
  have capped : height * min percent 100 ≤ height * 100 := Nat.mul_le_mul_left height (Nat.min_le_right ..)
  exact Nat.div_le_of_le_mul (by omega)

end Image

end TextureLoom
