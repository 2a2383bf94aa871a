import TextureLoom.Proofs.Atlas.Accounting
import TextureLoom.Proofs.Atlas.Overlooking

set_option autoImplicit false

namespace TextureLoom.Atlas

open Bytes

/-- The command gives the image of a handle a layout. -/
def Command.NamesLayout (handle : Nat) : Command → Prop
  | .imageBarrier image _ _ _ => handle = image
  | _ => False

/-- The command writes to a texel of the image of a handle: one in the top left square of the first layers, or one in a
rectangle of one layer. -/
def Command.NamesTexel (handle layer x y : Nat) : Command → Prop
  | .copyImage _ target extent layers => handle = target ∧ layer < layers ∧ x < extent ∧ y < extent
  | .copyToImage _ target into left top width height =>
    handle = target ∧ layer = into ∧ left ≤ x ∧ x < left + width ∧ top ≤ y ∧ y < top + height
  | _ => False

/-- The command writes to a byte of the buffer of a handle. -/
def Command.NamesByte (handle i : Nat) : Command → Prop
  | .copyToBuffer _ target count => handle = target ∧ i < count
  | _ => False

namespace DeviceImage

/-- The bytes that are stored for a texel. -/
def stored? (img : DeviceImage) (layer x y : Nat) : Option (List UInt8) :=
  if layer < img.layers ∧ x < img.side ∧ y < img.side then some (texelAt (img.bytesOf layer) ((y * img.side + x) * 4))
  else none

variable {img after : DeviceImage} {layer x y : Nat}

/-- A texel reads as it is stored, unless its offset is no 32-bit word. -/
theorem texel?_eq_stored? (fits : (y * img.side + x) * 4 < 0x100000000) :
    img.texel? layer x y = img.stored? layer x y := by
  rw [stored?]
  split
  · next inside => exact texel?_eq_some_of_lt fits inside.1 inside.2.1 inside.2.2
  · rw [texel?, if_pos (by omega)]

theorem stored?_eq_some (inLayers : layer < img.layers) (column : x < img.side) (row : y < img.side) :
    img.stored? layer x y = some (texelAt (img.bytesOf layer) ((y * img.side + x) * 4)) :=
  if_pos ⟨inLayers, column, row⟩

/-- An image of the same size stores the same where the bytes of the texel are the same. -/
theorem stored?_congr (side : after.side = img.side) (layers : after.layers = img.layers)
    (same : x < img.side → texelAt (after.bytesOf layer) ((y * img.side + x) * 4) =
      texelAt (img.bytesOf layer) ((y * img.side + x) * 4)) : after.stored? layer x y = img.stored? layer x y := by
  rw [stored?, stored?, side, layers]
  split
  · next inside => rw [same inside.2.1]
  · rfl

end DeviceImage

namespace Device

def stored? (d : Device) (handle layer x y : Nat) : Option (List UInt8) :=
  (d.images.get? handle).bind (·.stored? layer x y)

/-- A byte of a buffer. -/
def byte? (d : Device) (handle i : Nat) : Option UInt8 := (d.buffers.get? handle).map (byteAt · i)

/-- Whether something was written to a layer. -/
def isWritten (d : Device) (handle layer : Nat) : Bool := ((d.images.get? handle).bind (·.layer? layer)).isSome

/-- The command finds what it names, in the layout that it needs, and all that it reads and writes is in range. -/
def Admits (d : Device) (staging : Staging) : Command → Prop
  | .imageBarrier image old _ _ => ∃ found, d.layout? image = some found ∧ (old = .undefined ∨ old = found)
  | .copyToBuffer offset target count =>
    offset + count ≤ staging.size ∧ ∃ bytes, d.buffers.get? target = some bytes ∧ count ≤ bytes.size
  | command => d.Legal staging command

/-- What is checked of an upload is in range, but only because a sum or product is no longer a word and wraps around. -/
def Wraps (d : Device) (staging : Staging) : Command → Prop
  | .copyToImage offset target layer x y width height =>
    d.alignment ∣ offset ∧ offset + width * height * 4 % 0x10000000000000000 ≤ staging.size ∧
      (∃ i, d.images.get? target = some i ∧ i.layout = .transferTarget ∧ layer < i.layers ∧
        (x + width) % 0x100000000 ≤ i.side ∧ (y + height) % 0x100000000 ≤ i.side) ∧
      (0x100000000 ≤ x + width ∨ 0x100000000 ≤ y + height ∨ 0x10000000000000000 ≤ width * height * 4)
  | _ => False

/-- Nothing but what the command names is different afterwards. -/
structure Confined (d after : Device) (command : Command) : Prop where
  alike : d.Alike after
  alignment : after.alignment = d.alignment
  memoryLimit : after.memoryLimit = d.memoryLimit
  extents : ∀ handle, after.extent? handle = d.extent? handle
  sizes : ∀ handle, (after.buffers.get? handle).map ByteArray.size = (d.buffers.get? handle).map ByteArray.size
  layouts : ∀ handle, ¬command.NamesLayout handle → after.layout? handle = d.layout? handle
  texels : ∀ handle layer x y, ¬command.NamesTexel handle layer x y →
    after.stored? handle layer x y = d.stored? handle layer x y
  bytes : ∀ handle i, ¬command.NamesByte handle i → after.byte? handle i = d.byte? handle i

/-- What the command names is as it asks for. A copy passes over layers of its source that nothing was written to. -/
def Fulfils (d after : Device) (staging : Staging) : Command → Prop
  | .imageBarrier image _ new _ => after.layout? image = some new
  | .copyImage source target extent layers => ∀ layer < layers, ∀ x < extent, ∀ y < extent,
    after.stored? target layer x y = d.stored? (if d.isWritten source layer then source else target) layer x y
  | .copyToImage offset target layer x y width height => ∀ i < width, ∀ j < height,
    after.stored? target layer (x + i) (y + j) = some (texelAt staging.bytes (offset + (j * width + i) * 4))
  | .copyToBuffer offset target count => ∀ i < count, after.byte? target i = some (byteAt staging.bytes (offset + i))
  | .bufferBarrier _ => True

/-- A command is carried out, and nothing else is done, or it is refused and nothing is done. -/
structure Guards (d : Device) (staging : Staging) (command : Command) : Prop where
  admitted : d.Admits staging command → ∃ after, d.submit staging [command] = (after, .ok ()) ∧
    d.Confined after command ∧ d.Fulfils after staging command
  refused : ¬d.Admits staging command → ∃ violation, d.submit staging [command] = (d, .error (.invalid violation))

variable {d : Device} {staging : Staging} {command : Command} {handle layer x y limit : Nat}

/-! ### What is refused -/

/-- A check that comes before others. -/
theorem check_eq_none_iff {fails : Prop} [Decidable fails] {violation : Violation} {rest : Option Violation} :
    (if fails then some violation else rest) = none ↔ ¬fails ∧ rest = none := by
  split
  · next failed => simp only [reduceCtorEq, failed, not_true_eq_false, false_and]
  · next passed => exact (and_iff_right passed).symm

theorem layoutViolation?_eq_none_iff {wanted : Layout} :
    d.layoutViolation? handle wanted = none ↔ ∃ i, d.images.get? handle = some i ∧ i.layout = wanted := by
  rw [layoutViolation?, layout?]
  cases d.images.get? handle with
  | none => simp
  | some i => simp

theorem copyViolation?_eq_none_iff {source target extent layers : Nat} :
    d.copyViolation? source target extent layers = none ↔
      ∃ i j, d.images.get? source = some i ∧ d.images.get? target = some j ∧ extent ≤ min i.side j.side ∧
        layers ≤ min i.layers j.layers := by
  rw [copyViolation?, extent?, extent?]
  cases d.images.get? source with
  | none => simp
  | some i =>
    cases d.images.get? target with
    | none => simp
    | some j => simp

theorem uploadViolation?_eq_none_iff {offset target width height : Nat} :
    d.uploadViolation? staging offset target layer x y width height = none ↔
      d.alignment ∣ offset ∧ offset + width * height * 4 % 0x10000000000000000 ≤ staging.size ∧
        ∃ i, d.images.get? target = some i ∧ layer < i.layers ∧ (x + width) % 0x100000000 ≤ i.side ∧
          (y + height) % 0x100000000 ≤ i.side := by
  rw [uploadViolation?, check_eq_none_iff, check_eq_none_iff, Nat.dvd_iff_mod_eq_zero]
  simp only [ne_eq, not_not, Bool.not_eq_true', Bool.not_eq_false, Staging.hasRange, decide_eq_true_eq]
  cases d.images.get? target with
  | none => simp
  | some i => simp [DeviceImage.hasRect, and_assoc]

theorem bufferViolation?_eq_none_iff {offset target count : Nat} :
    d.bufferViolation? staging offset target count = none ↔
      offset + count ≤ staging.size ∧ ∃ bytes, d.buffers.get? target = some bytes ∧ count ≤ bytes.size := by
  rw [bufferViolation?, check_eq_none_iff]
  simp only [Bool.not_eq_true', Bool.not_eq_false, Staging.hasRange, decide_eq_true_eq]
  cases d.buffers.get? target with
  | none => simp
  | some bytes => simp

/-- A command is not refused just if it is admitted, or its sums wrap around. -/
theorem violation?_eq_none_iff :
    d.violation? staging command = none ↔ d.Admits staging command ∨ d.Wraps staging command := by
  cases command with
  | imageBarrier image old new layers =>
    simp only [violation?, Admits, Wraps, or_false]
    cases d.layout? image with
    | none => simp
    | some found => simp [Classical.or_iff_not_imp_left]
  | copyImage source target extent layers =>
    simp only [violation?, Admits, Wraps, or_false, Option.or_eq_none_iff, layoutViolation?_eq_none_iff,
      copyViolation?_eq_none_iff, Legal]
    constructor
    · rintro ⟨⟨i, isSource, sourceReady⟩, ⟨j, isTarget, targetReady⟩, found, onto, sameSource, sameTarget, inRange⟩
      cases isSource.symm.trans sameSource
      cases isTarget.symm.trans sameTarget
      exact ⟨i, j, isSource, isTarget, sourceReady, targetReady, inRange⟩
    · rintro ⟨i, j, isSource, isTarget, sourceReady, targetReady, inRange⟩
      exact ⟨⟨i, isSource, sourceReady⟩, ⟨j, isTarget, targetReady⟩, i, j, isSource, isTarget, inRange⟩
  | copyToImage offset target layer x y width height =>
    simp only [violation?, Admits, Wraps, Option.or_eq_none_iff, layoutViolation?_eq_none_iff,
      uploadViolation?_eq_none_iff, Legal]
    constructor
    · rintro ⟨⟨i, found, ready⟩, aligned, staged, same, sameFound, inLayers, columns, rows⟩
      cases found.symm.trans sameFound
      by_cases words : x + width < 0x100000000 ∧ y + height < 0x100000000 ∧ width * height * 4 < 0x10000000000000000
      · rw [Nat.mod_eq_of_lt words.1] at columns
        rw [Nat.mod_eq_of_lt words.2.1] at rows
        rw [Nat.mod_eq_of_lt words.2.2] at staged
        exact .inl ⟨aligned, staged, i, found, ready, inLayers, columns, rows⟩
      · exact .inr ⟨aligned, staged, ⟨i, found, ready, inLayers, columns, rows⟩, by omega⟩
    · rintro (legal | ⟨aligned, staged, ⟨i, found, ready, inRange⟩, _⟩)
      · obtain ⟨aligned, staged, i, found, ready, inLayers, columns, rows⟩ := legal
        exact ⟨⟨i, found, ready⟩, aligned, by omega, i, found, inLayers, by omega, by omega⟩
      · exact ⟨⟨i, found, ready⟩, aligned, staged, i, found, inRange⟩
  | copyToBuffer offset target count =>
    simp only [violation?, Admits, Wraps, or_false, bufferViolation?_eq_none_iff]
  | bufferBarrier buffer => simp [violation?, Admits, Wraps, Legal, Option.isSome_iff_ne_none]

/-- Sums that wrap around are out of range: sides of images are words, and sizes of staging buffers too. -/
theorem Wraps.not_admits (wraps : d.Wraps staging command) (whole : d.WholeUpTo 0xffffffff)
    (small : staging.size < 0x10000000000000000) : ¬d.Admits staging command := by
  cases command with
  | copyToImage offset target layer x y width height =>
    rintro ⟨_, staged, i, found, _, _, columns, rows⟩
    have side := (whole target i found).2
    obtain ⟨_, _, _, wrapped⟩ := wraps
    omega
  | imageBarrier image old new layers => exact wraps.elim
  | copyImage source target extent layers => exact wraps.elim
  | copyToBuffer offset target count => exact wraps.elim
  | bufferBarrier buffer => exact wraps.elim

/-! ### What is done -/

variable {f : DeviceImage → DeviceImage}

/-- A change of one image that leaves its size, and all of it that the command does not name. -/
theorem confined_modifyImage (extents : ∀ i, (f i).side = i.side ∧ (f i).layers = i.layers)
    (layouts : ¬command.NamesLayout handle → ∀ i, (f i).layout = i.layout)
    (texels : ∀ i, d.images.get? handle = some i → ∀ layer x y, ¬command.NamesTexel handle layer x y →
      (f i).stored? layer x y = i.stored? layer x y) :
    d.Confined (d.modifyImage handle f) command where
  alike := .modifyImage d handle fun i => by
    rw [DeviceImage.byteCount, DeviceImage.byteCount, (extents i).1, (extents i).2]
  alignment := rfl
  memoryLimit := rfl
  extents := by
    intro other
    rw [extent?, extent?, modifyImage, Table.get?_modify, Option.map_map]
    refine Option.map_congr fun i _ => ?_
    rw [Function.comp_apply]
    split
    · rw [(extents i).1, (extents i).2]
    · rfl
  sizes := fun _ => rfl
  layouts := by
    intro other unnamed
    rw [layout?, layout?, modifyImage, Table.get?_modify, Option.map_map]
    refine Option.map_congr fun i _ => ?_
    rw [Function.comp_apply]
    split
    · next here => exact layouts (here ▸ unnamed) i
    · rfl
  texels := by
    intro other layer x y unnamed
    rw [stored?, stored?, modifyImage, Table.get?_modify, Option.bind_map]
    refine Option.bind_congr fun i found => ?_
    rw [Function.comp_apply]
    split
    · next here => exact texels i (here ▸ found) layer x y (here ▸ unnamed)
    · rfl
  bytes := fun _ _ _ => rfl

/-- A command that is admitted does nothing but what it names. -/
theorem Admits.confined (admits : d.Admits staging command) (whole : d.WholeUpTo limit) :
    d.Confined (d.apply staging command) command := by
  cases command with
  | imageBarrier image old new layers =>
    exact confined_modifyImage (fun _ => ⟨rfl, rfl⟩) (fun unnamed => absurd rfl unnamed) fun _ _ _ _ _ _ => rfl
  | copyImage source target extent layers =>
    obtain ⟨i, j, isSource, isTarget, _, _, small, few⟩ := admits
    simp only [apply, isSource]
    refine confined_modifyImage (fun _ => ⟨copyLayers_side, copyLayers_layers⟩) (fun _ _ => copyLayers_layout) ?_
    intro onto found layer x y unnamed
    cases isTarget.symm.trans found
    refine DeviceImage.stored?_congr copyLayers_side copyLayers_layers fun column => ?_
    refine texelAt_copyLayers_outside (whole target j isTarget).1 (by omega) (by omega) column ?_
    simp only [Command.NamesTexel, true_and] at unnamed
    omega
  | copyToImage offset target layer x y width height =>
    obtain ⟨_, _, i, isTarget, _, _, columns, _⟩ := admits
    refine confined_modifyImage (fun _ => ⟨rfl, rfl⟩) (fun _ _ => rfl) ?_
    intro onto found other column row unnamed
    cases isTarget.symm.trans found
    refine DeviceImage.stored?_congr rfl rfl fun inColumns => texelAt_writeRect_outside columns inColumns ?_
    simp only [Command.NamesTexel, true_and] at unnamed
    omega
  | copyToBuffer offset target count =>
    refine ⟨.apply d staging _, rfl, rfl, fun _ => rfl, fun handle => ?_, fun _ _ => rfl, fun _ _ _ _ _ => rfl,
      fun handle i unnamed => ?_⟩
    · rw [apply, Table.get?_modify, Option.map_map]
      refine Option.map_congr fun bytes _ => ?_
      rw [Function.comp_apply]
      split
      · exact blit_size ..
      · rfl
    · rw [byte?, byte?, apply, Table.get?_modify, Option.map_map]
      refine Option.map_congr fun bytes _ => ?_
      rw [Function.comp_apply]
      split
      · next here =>
        simp only [Command.NamesByte, here, true_and] at unnamed
        exact byteAt_blit_outside (.inr (by omega))
      · rfl
  | bufferBarrier buffer =>
    exact ⟨.refl d, rfl, rfl, fun _ => rfl, fun _ => rfl, fun _ _ => rfl, fun _ _ _ _ _ => rfl, fun _ _ _ => rfl⟩

/-- A command that is admitted does what it asks for. -/
theorem Admits.fulfils (admits : d.Admits staging command) (whole : d.WholeUpTo limit) :
    d.Fulfils (d.apply staging command) staging command := by
  cases command with
  | imageBarrier image old new layers =>
    obtain ⟨_, isLayout, _⟩ := admits
    obtain ⟨i, found, _⟩ := Option.map_eq_some_iff.mp isLayout
    simp only [Fulfils, apply, layout?, get?_modifyImage found, Option.map_some]
  | copyImage source target extent layers =>
    obtain ⟨i, j, isSource, isTarget, _, _, small, few⟩ := admits
    intro layer inLayers x column y row
    have isAfter := get?_modifyImage isTarget (copyLayers i extent layers)
    rw [stored?, apply, isSource]
    simp only [isAfter, Option.bind_some, isWritten, isSource]
    rcases written : i.layer? layer with _ | bytes
    · rw [Option.isSome_none, if_neg Bool.false_ne_true, stored?, isTarget, Option.bind_some]
      refine DeviceImage.stored?_congr copyLayers_side copyLayers_layers fun inColumns => ?_
      exact texelAt_copyLayers_outside (whole target j isTarget).1 (by omega) (by omega) inColumns
        (.inr (.inr (.inr written)))
    · rw [Option.isSome_some, if_pos rfl, stored?, isSource, Option.bind_some,
        DeviceImage.stored?_eq_some (by rw [copyLayers_layers]; omega) (by rw [copyLayers_side]; omega)
          (by rw [copyLayers_side]; omega),
        DeviceImage.stored?_eq_some (by omega) (by omega) (by omega), copyLayers_side,
        texelAt_copyLayers (whole source i isSource).1 (whole target j isTarget).1 (by omega) (by omega) inLayers
          written column row, DeviceImage.bytesOf, written, Option.getD_some]
  | copyToImage offset target layer x y width height =>
    obtain ⟨_, staged, i, isTarget, _, inLayers, columns, rows⟩ := admits
    intro column inColumns row inRows
    have isAfter := get?_modifyImage isTarget (writeRect staging offset layer x y width height)
    rw [stored?, apply, isAfter, Option.bind_some, DeviceImage.stored?_eq_some (by simpa using inLayers)
        (by simp only [writeRect_side]; omega) (by simp only [writeRect_side]; omega), writeRect_side,
      texelAt_writeRect (whole target i isTarget).1 inLayers columns rows staged inColumns inRows]
  | copyToBuffer offset target count =>
    obtain ⟨staged, bytes, found, fits⟩ := admits
    intro i less
    rw [byte?, apply, Table.get?_modify_self, found, Option.map_some, Option.map_some, byteAt_blit staged (by omega),
      if_pos (by omega), Nat.sub_zero]
  | bufferBarrier buffer => trivial

theorem submit_of_violation? {violation : Violation} (refused : d.violation? staging command = some violation) :
    d.submit staging [command] = (d, .error (.invalid violation)) := by
  rw [submit, refused]

theorem submit_of_unopposed (unopposed : d.violation? staging command = none) :
    d.submit staging [command] = (d.apply staging command, .ok ()) := by
  rw [submit, unopposed, submit]

/-- Where commands are checked in full, one that is not refused is admitted. -/
theorem Guards.admits (guards : d.Guards staging command) (unopposed : d.violation? staging command = none) :
    d.Admits staging command := by
  refine Classical.byContradiction fun outside => ?_
  obtain ⟨violation, refused⟩ := guards.refused outside
  have results := congrArg Prod.snd ((submit_of_unopposed unopposed).symm.trans refused)
  cases results

/-- Sides of images are words. -/
theorem wholeUpTo_serveAll {requests : List Request}
    (words : ∀ side layers, .createImage side layers ∈ requests → side < 2 ^ 32) (alignment : Nat) :
    ((create alignment).serveAll createImage requests).1.WholeUpTo 0xffffffff := by
  refine WholeUpTo.serveAll (fun _ _ found => by cases found) fun side layers member => ?_
  have word := words side layers member
  omega

/-- An image of one texel, made ready for uploads. -/
def readying : List Request :=
  [.createImage 1 1, .submit ⟨⟨#[0, 0, 0, 0]⟩, 0⟩ [.imageBarrier 1 .undefined .transferTarget 1]]

end Device

end TextureLoom.Atlas
