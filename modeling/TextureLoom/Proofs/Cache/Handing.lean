import TextureLoom.Cache.Basic
import TextureLoom.Proofs.Atlas.Calls

set_option autoImplicit false

namespace TextureLoom

theorem Bytes.toList_pushAll (run : List UInt8) (bytes : ByteArray) :
    (run.foldl ByteArray.push bytes).data.toList = bytes.data.toList ++ run := by
  induction run generalizing bytes with
  | nil => rw [List.foldl_nil, List.append_nil]
  | cons b rest ih => rw [List.foldl_cons, ih, ByteArray.data_push, Array.toList_push, List.append_assoc]; rfl

namespace Pixel

theorem rgbaOfAll_eq (pixels : Array Pixel) :
    rgbaOfAll pixels = (pixels.toList.flatMap rgbaBytes).foldl ByteArray.push ByteArray.empty := by
  rw [rgbaOfAll, ← Array.foldl_toList, List.foldl_flatMap]
  rfl

theorem toList_rgbaOfAll (pixels : Array Pixel) :
    (rgbaOfAll pixels).data.toList = pixels.toList.flatMap rgbaBytes := by
  rw [rgbaOfAll_eq, Bytes.toList_pushAll]
  rfl

theorem size_rgbaOfAll (pixels : Array Pixel) : (rgbaOfAll pixels).size = pixels.size * 4 := by
  have sized : ∀ p, (rgbaBytes p).length = 4 := fun _ => rfl
  rw [← ByteArray.size_data, ← Array.length_toList, toList_rgbaOfAll, List.length_flatMap]
  simp only [sized, List.map_const', List.sum_replicate_nat, Array.length_toList]

/-- The first pixels take up the first bytes. -/
theorem take_flatMap_rgbaBytes (pixels : List Pixel) (count : Nat) :
    (pixels.flatMap rgbaBytes).take (count * 4) = (pixels.take count).flatMap rgbaBytes := by
  induction pixels generalizing count with
  | nil => simp
  | cons p rest ih =>
    cases count with
    | zero => simp
    | succ count =>
      have sized : (rgbaBytes p).length = 4 := rfl
      rw [List.flatMap_cons, List.take_succ_cons, List.flatMap_cons, ← ih, Nat.succ_mul, Nat.add_comm, ← sized,
        List.take_length_add_append]

end Pixel

/-- Rows without gaps are taken as they are. -/
theorem Atlas.Texture.toList_ofRows (width height : Nat) (rows : ByteArray) :
    (Texture.ofRows width height (width * 4) rows).bytes.data.toList =
      rows.data.toList.take (width * height * 4) := by
  induction height with
  | zero => simp [Texture.ofRows]
  | succ height ih =>
    have total : width * (height + 1) * 4 = width * height * 4 + width * 4 := by
      rw [Nat.mul_add_one width height, Nat.add_mul]
    have start : height * (width * 4) = width * height * 4 := by rw [Nat.mul_left_comm, Nat.mul_assoc]
    simp only [Texture.ofRows] at ih ⊢
    rw [Nat.fold_succ, ByteArray.data_append, Array.toList_append, ih, total, List.take_add, start,
      ByteArray.data_extract, Array.toList_extract, List.extract_eq_take_drop, Nat.add_sub_cancel_left]

namespace TextureView

/-- A view with area, and with pixels for all of it. -/
structure Whole (view : TextureView) : Prop where
  width : 0 < view.width
  height : 0 < view.height
  pixels : view.width * view.height ≤ view.pixels.size

/-- The bytes that a view shows, row by row. -/
def rgba (view : TextureView) : List UInt8 :=
  (view.pixels.toList.take (view.width * view.height)).flatMap Pixel.rgbaBytes

theorem isSome_image? {view : TextureView} : view.image?.isSome ↔ view.Whole := by
  simp only [image?]
  split
  · rename_i malformed
    refine iff_of_false Bool.false_ne_true fun whole => ?_
    have area := Nat.mul_pos whole.width whole.height
    have pixels := whole.pixels
    omega
  · rename_i formed
    rw [not_or, Nat.not_lt] at formed
    refine iff_of_true rfl ⟨?_, ?_, formed.2⟩
    · exact Nat.pos_of_ne_zero fun none => formed.1 (by rw [none, Nat.zero_mul])
    · exact Nat.pos_of_ne_zero fun none => formed.1 (by rw [none, Nat.mul_zero])

theorem whole_of_ofImage? {img : Image} {view : TextureView} (shown : ofImage? img = some view) : view.Whole := by
  simp only [ofImage?, Bool.and_eq_true, decide_eq_true_eq, beq_iff_eq] at shown
  split at shown
  · rename_i fits
    cases shown
    exact ⟨fits.1.1.1, fits.1.2.1, Nat.le_of_eq fits.2.symm⟩
  · cases shown

end TextureView

namespace Atlas

variable {a : Atlas} {id : Nat} {view : TextureView}

/-- The slot of an id behind a view that was handed to the atlas: the view fits in no atlas of the configuration, or its
bytes are the data of the slot from now on. -/
inductive Handed (c : Config) (id : Nat) (view : TextureView) (before : Slot) : Slot → Prop where
  | refused (e : DataError) : sizeError? c id view.width view.height = some e →
      Handed c id view before before.unplaced.rejected
  | taken (t : Texture) (kept : Slot) : sizeError? c id view.width view.height = none →
      t.width = view.width → t.height = view.height → t.bytes.data.toList = view.rgba →
      kept = before ∨ kept = before.unplaced → Handed c id view before (kept.loaded t)

/-- A view is handed to an atlas as rows without gaps. -/
def hand (a : Atlas) (id : Nat) (view : TextureView) : Atlas × Except DataError Unit :=
  a.set id view.width view.height (view.width * 4) (Pixel.rgbaOfAll view.pixels)

theorem check_eq_ok (inside : id < a.config.maxTextureId) (registered : (a.slot id).isRegistered = true) :
    a.check id = .ok () := by
  rw [check, if_neg (Nat.not_le.mpr inside), if_pos registered]

/-- The pixels of a view are read as its texture if there are enough of them. -/
theorem textureOf_rgbaOfAll (columns : 0 < view.width) (rows : 0 < view.height) :
    textureOf view.width view.height (view.width * 4) (Pixel.rgbaOfAll view.pixels) =
      if view.width * view.height ≤ view.pixels.size then
        .ok (.ofRows view.width view.height (view.width * 4) (Pixel.rgbaOfAll view.pixels))
      else .error (.shortBuffer (view.pixels.size * 4) (view.width * view.height * 4)) := by
  have needed : view.width * 4 * (view.height - 1) + view.width * 4 = view.width * view.height * 4 := by
    rw [← Nat.mul_add_one, Nat.sub_add_cancel rows, Nat.mul_right_comm]
  simp only [textureOf, Nat.ne_of_gt (Nat.mul_pos columns (by decide : 0 < 4)), ↓reduceIte, needed,
    Pixel.size_rgbaOfAll, Nat.lt_irrefl]
  split
  · rw [if_neg (by omega)]
  · rw [if_pos (by omega)]

section

variable (usable : a.ignores id = false) (inside : id < a.config.maxTextureId)
  (registered : (a.slot id).isRegistered = true)

include usable inside registered

/-- What is whole is taken, unless it is too large. -/
theorem handed_of_whole (whole : view.Whole) : Handed a.config id view (a.slot id) ((a.hand id view).1.slot id) := by
  have area : ¬(view.width = 0 ∨ view.height = 0) := by
    have columns := whole.width
    have rows := whole.height
    omega
  simp only [hand, Atlas.set, usable, Bool.false_eq_true, ↓reduceIte, check_eq_ok inside registered, area]
  split
  · rename_i e tooLarge
    simp only [(empties_reject registered).slot]
    exact .refused e tooLarge
  · rename_i fits
    rw [textureOf_rgbaOfAll whole.width whole.height, if_pos whole.pixels]
    have loads := loads_load registered
      (Texture.ofRows view.width view.height (view.width * 4) (Pixel.rgbaOfAll view.pixels))
    have bytes : (Texture.ofRows view.width view.height (view.width * 4)
        (Pixel.rgbaOfAll view.pixels)).bytes.data.toList = view.rgba := by
      rw [Texture.toList_ofRows, Pixel.toList_rgbaOfAll, Pixel.take_flatMap_rgbaBytes, TextureView.rgba]
    dsimp only
    rcases loads.cases with ⟨_, slot, _⟩ | ⟨_, slot⟩
    · rw [slot]
      exact .taken _ _ fits rfl rfl bytes (.inl rfl)
    · rw [slot]
      exact .taken _ _ fits rfl rfl bytes (.inr rfl)

/-- What is not whole is not taken. -/
theorem slot_hand_of_not_whole (malformed : ¬view.Whole) :
    (a.hand id view).1.slot id = a.slot id ∨ (a.hand id view).1.slot id = (a.slot id).unplaced.rejected := by
  simp only [hand, Atlas.set, usable, Bool.false_eq_true, ↓reduceIte, check_eq_ok inside registered]
  split
  · exact .inl rfl
  · rename_i area
    split
    · exact .inr (empties_reject registered).slot
    · rw [not_or] at area
      have columns := Nat.pos_of_ne_zero area.1
      have rows := Nat.pos_of_ne_zero area.2
      rw [textureOf_rgbaOfAll columns rows, if_neg fun pixels => malformed ⟨columns, rows, pixels⟩]
      exact .inl rfl

end

end Atlas

end TextureLoom
