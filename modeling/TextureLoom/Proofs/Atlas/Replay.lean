import TextureLoom.Atlas.Device
import TextureLoom.Proofs.Atlas.StagedBytes
import TextureLoom.Proofs.Atlas.Texels

set_option autoImplicit false

namespace TextureLoom

namespace Table

variable {κ ν : Type} [DecidableEq κ]

theorem modify_erase (t : Table κ ν) {key other : κ} (f : ν → ν) (distinct : other ≠ key) :
    Table.modify other f (t.erase key) = (Table.modify other f t).erase key := by
  induction t with
  | nil => rfl
  | cons entry rest ih =>
    obtain ⟨k, v⟩ := entry
    by_cases isKey : k = key
    · subst isKey
      simpa [erase, modify, distinct.symm] using ih
    · by_cases isOther : k = other
      · subst isOther
        simp [erase, modify, isKey]
      · simpa [erase, modify, isKey, isOther] using ih

theorem modify_insert (t : Table κ ν) {key other : κ} (value : ν) (f : ν → ν) (distinct : other ≠ key) :
    Table.modify other f (t.insert key value) = (Table.modify other f t).insert key value := by
  simp [insert, modify, distinct.symm, modify_erase t f distinct]

end Table

namespace Atlas

open Bytes

/-- The command names handles up to `handles` and staged bytes up to `used`. -/
def Command.Within (handles used : Nat) : Command → Prop
  | .imageBarrier image _ _ _ => image ≤ handles
  | .copyImage source target _ _ => source ≤ handles ∧ target ≤ handles
  | .copyToImage offset target _ _ _ width height => target ≤ handles ∧ offset + width * height * 4 ≤ used
  | .copyToBuffer offset target count => target ≤ handles ∧ offset + count ≤ used
  | .bufferBarrier buffer => buffer ≤ handles

theorem Command.Within.mono {handles used moreHandles moreUsed : Nat} {c : Command} (within : c.Within handles used)
    (lessHandles : handles ≤ moreHandles) (lessUsed : used ≤ moreUsed) : c.Within moreHandles moreUsed := by
  cases c <;> simp only [Command.Within] at within ⊢ <;> omega

namespace Device

variable {staging : Staging} {c : Command}

@[simp] theorem apply_handles (d : Device) : (d.apply staging c).handles = d.handles := by
  cases c with
  | copyImage source target extent layers =>
    rw [apply]
    split <;> rfl
  | _ => rfl

@[simp] theorem apply_alignment (d : Device) : (d.apply staging c).alignment = d.alignment := by
  cases c with
  | copyImage source target extent layers =>
    rw [apply]
    split <;> rfl
  | _ => rfl

/-- A command in order finds what it names, images in the layouts that it takes them to be in, and all that it reads
and writes in range. -/
def Legal (d : Device) (staging : Staging) : Command → Prop
  | .imageBarrier image old _ _ => d.layout? image = some old
  | .copyImage source target extent layers =>
    ∃ i j, d.images.get? source = some i ∧ d.images.get? target = some j ∧ i.layout = .transferSource ∧
      j.layout = .transferTarget ∧ extent ≤ min i.side j.side ∧ layers ≤ min i.layers j.layers
  | .copyToImage offset target layer x y width height =>
    d.alignment ∣ offset ∧ offset + width * height * 4 ≤ staging.size ∧
      ∃ i, d.images.get? target = some i ∧ i.layout = .transferTarget ∧ layer < i.layers ∧ x + width ≤ i.side ∧
        y + height ≤ i.side
  | .copyToBuffer offset target count =>
    d.alignment ∣ offset ∧ offset + count ≤ staging.size ∧
      ∃ bytes, d.buffers.get? target = some bytes ∧ count ≤ bytes.size
  | .bufferBarrier buffer => (d.buffers.get? buffer).isSome

/-- The device refuses no command in order. -/
theorem Legal.violation? {d : Device} (legal : d.Legal staging c) : d.violation? staging c = none := by
  cases c with
  | imageBarrier image old new layers =>
    simp only [Legal] at legal
    simp [Device.violation?, legal]
  | copyImage source target extent layers =>
    obtain ⟨i, j, isSource, isTarget, sourceReady, targetReady, small, few⟩ := legal
    have inside : ¬(min i.side j.side < extent ∨ min i.layers j.layers < layers) := by omega
    have inRange : d.copyViolation? source target extent layers = none := by
      simp only [copyViolation?, extent?, isSource, isTarget, Option.map_some, if_neg inside]
    simp [Device.violation?, layoutViolation?, layout?, isSource, isTarget, sourceReady, targetReady, inRange]
  | copyToImage offset target layer x y width height =>
    obtain ⟨aligned, inStaging, i, found, ready, inLayers, columns, rows⟩ := legal
    have wrapped := Nat.mod_le (width * height * 4) (0x10000000000000000)
    have wrappedColumns := Nat.mod_le (x + width) (0x100000000)
    have wrappedRows := Nat.mod_le (y + height) (0x100000000)
    have hasRange : staging.hasRange offset (width * height * 4 % 0x10000000000000000) = true := by
      rw [Staging.hasRange, decide_eq_true_eq]
      omega
    have hasRect : i.hasRect layer x y width height = true := by
      simp only [DeviceImage.hasRect, Bool.and_eq_true, decide_eq_true_eq]
      omega
    have inRange : d.uploadViolation? staging offset target layer x y width height = none := by
      simp only [uploadViolation?, Nat.mod_eq_zero_of_dvd aligned, hasRange, found, hasRect, ne_eq, not_true_eq_false,
        Bool.not_true, Bool.false_eq_true, ↓reduceIte]
    simp [Device.violation?, layoutViolation?, layout?, found, ready, inRange]
  | copyToBuffer offset target count =>
    obtain ⟨_, inStaging, bytes, found, fits⟩ := legal
    have hasRange : staging.hasRange offset count = true := decide_eq_true inStaging
    simp [Device.violation?, bufferViolation?, hasRange, found, fits]
  | bufferBarrier buffer => exact if_pos legal

/-- The commands are in order, one after the other, and lead from one device to another. -/
def Performs (staging : Staging) : Device → List Command → Device → Prop
  | d, [], after => after = d
  | d, c :: rest, after => d.Legal staging c ∧ Performs staging (d.apply staging c) rest after

namespace Performs

variable {d middle after : Device} {commands first second : List Command}

theorem submit (performs : Performs staging d commands after) : d.submit staging commands = (after, .ok ()) := by
  induction commands generalizing d with
  | nil => rw [performs, Device.submit]
  | cons c rest ih => rw [Device.submit, performs.1.violation?, ih performs.2]

theorem append (performs : Performs staging d first middle) (later : Performs staging middle second after) :
    Performs staging d (first ++ second) after := by
  induction first generalizing d with
  | nil => rwa [performs] at later
  | cons c rest ih => exact ⟨performs.1, ih performs.2⟩

theorem handles (performs : Performs staging d commands after) : after.handles = d.handles := by
  induction commands generalizing d with
  | nil => rw [performs]
  | cons c rest ih => rw [ih performs.2, apply_handles]

end Performs

variable {handles used : Nat}

/-- What is done to a device makes no difference to a command, nor the command to what is done. -/
structure Passes (change : Device → Device) (staging : Staging) (handles : Nat) (c : Command) : Prop where
  legal : ∀ d : Device, d.handles = handles → d.Legal staging c → (change d).Legal staging c
  apply : ∀ d : Device, d.handles = handles → (change d).apply staging c = change (d.apply staging c)

theorem Performs.change {change : Device → Device} {commands : List Command} {d after : Device}
    (performs : Performs staging d commands after) (passes : ∀ c ∈ commands, Passes change staging d.handles c) :
    Performs staging (change d) commands (change after) := by
  induction commands generalizing d with
  | nil => rw [performs, Performs]
  | cons c rest ih =>
    have first := passes c List.mem_cons_self
    refine ⟨first.legal d rfl performs.1, ?_⟩
    rw [first.apply d rfl]
    apply ih performs.2
    intro later member
    rw [apply_handles]
    exact passes later (List.mem_cons_of_mem c member)

/-- The device with one more image under the next handle. -/
def added (d : Device) (img : DeviceImage) : Device :=
  { d with
    memoryUsed := d.memoryUsed + img.byteCount
    handles := d.handles + 1
    images := d.images.insert (d.handles + 1) img }

theorem eq_of_createImage {d device : Device} {side layers handle : Nat}
    (created : d.createImage side layers = .ok (handle, device)) :
    handle = d.handles + 1 ∧ device = d.added (.create side layers) := by
  simp only [createImage] at created
  split at created
  · split at created
    · cases created
      exact ⟨rfl, rfl⟩
    · cases created
  · cases created
    exact ⟨rfl, rfl⟩

theorem get?_added (d : Device) (img : DeviceImage) {handle : Nat} (earlier : handle ≤ d.handles) :
    (d.added img).images.get? handle = d.images.get? handle :=
  Table.get?_insert_of_ne _ _ (by omega)

theorem get?_added_self (d : Device) (img : DeviceImage) :
    (d.added img).images.get? (d.handles + 1) = some img := Table.get?_insert_self _ _ _

theorem modifyImage_added (d : Device) (img : DeviceImage) {handle : Nat} (earlier : handle ≤ d.handles)
    (f : DeviceImage → DeviceImage) : (d.added img).modifyImage handle f = (d.modifyImage handle f).added img := by
  unfold modifyImage added
  simp only [Table.modify_insert d.images img f (show handle ≠ d.handles + 1 by omega)]

/-- An image created later makes no difference to a command recorded before. -/
theorem passes_added (img : DeviceImage) (within : c.Within handles used) :
    Passes (fun d => d.added img) staging handles c where
  legal := by
    rintro d rfl legal
    cases c with
    | imageBarrier image old new layers =>
      simp only [Legal, layout?, get?_added d img within]
      exact legal
    | copyImage source target extent layers =>
      simp only [Legal, get?_added d img within.1, get?_added d img within.2]
      exact legal
    | copyToImage offset target layer x y width height =>
      simp only [Legal, get?_added d img within.1]
      exact legal
    | copyToBuffer offset target count => exact legal
    | bufferBarrier buffer => exact legal
  apply := by
    rintro d rfl
    cases c with
    | imageBarrier image old new layers => exact modifyImage_added d img within _
    | copyImage source target extent layers =>
      simp only [apply, get?_added d img within.1]
      split
      · rfl
      · exact modifyImage_added d img within.2 _
    | copyToImage offset target layer x y width height => exact modifyImage_added d img within.1 _
    | copyToBuffer offset target count => rfl
    | bufferBarrier buffer => rfl

theorem passes_memoryLimit (limit : Option Nat) :
    Passes (fun d => { d with memoryLimit := limit }) staging handles c where
  legal := by
    rintro d rfl legal
    cases c <;> exact legal
  apply := by
    rintro d rfl
    cases c with
    | copyImage source target extent layers =>
      simp only [apply]
      split <;> rfl
    | _ => rfl

theorem blit_congr {source other target : ByteArray} {start offset count : Nat} (size : source.size = other.size)
    (same : ∀ i, start ≤ i → i < start + count → byteAt source i = byteAt other i) :
    blit source start target offset count = blit other start target offset count := by
  unfold blit
  rw [size]
  split
  · rename_i inside
    have extracts : source.extract start (start + count) = other.extract start (start + count) := by
      apply ByteArray.ext_getElem
      · rw [ByteArray.size_extract, ByteArray.size_extract, size]
      · intro i bound otherBound
        rw [ByteArray.size_extract] at bound
        have equal := same (start + i) (by omega) (by omega)
        rw [byteAt, byteAt, dif_pos (by omega), dif_pos (by omega)] at equal
        rw [ByteArray.getElem_extract, ByteArray.getElem_extract, equal]
    rw [ByteArray.copySlice_eq_append, ByteArray.copySlice_eq_append, extracts, ByteArray.size_data,
      ByteArray.size_data, ByteArray.size_data, size]
  · rfl

theorem copyRows_congr {source other target : ByteArray} {start offset targetStride length count : Nat}
    (size : source.size = other.size)
    (same : ∀ i, start ≤ i → i < start + count * length → byteAt source i = byteAt other i) :
    copyRows source start length offset targetStride length count target =
      copyRows other start length offset targetStride length count target := by
  induction count with
  | zero => rfl
  | succ count ih =>
    rw [Nat.succ_mul] at same
    rw [copyRows_succ, copyRows_succ, ih fun i lower upper => same i lower (by omega)]
    exact blit_congr size fun i lower upper => same i (by omega) (by omega)

/-- A command reads only the staged bytes that it names. -/
theorem apply_staging {later : Staging} (d : Device) (grown : later.Extends staging)
    (within : c.Within handles staging.used) : d.apply later c = d.apply staging c := by
  cases c with
  | copyToImage offset target layer x y width height =>
    have write : writeRect later offset layer x y width height = writeRect staging offset layer x y width height := by
      funext target
      unfold writeRect
      simp only
      congr 1
      funext bytes
      refine copyRows_congr grown.size fun i lower upper => grown.bytes i ?_
      have total : height * (width * 4) = width * height * 4 := by
        rw [← Nat.mul_assoc, Nat.mul_comm height]
      have bound := within.2
      omega
    simp only [apply, write]
  | copyToBuffer offset target count =>
    have write : (fun bytes => blit later.bytes offset bytes 0 count) =
        fun bytes => blit staging.bytes offset bytes 0 count := by
      funext bytes
      refine blit_congr grown.size fun i lower upper => grown.bytes i ?_
      have bound := within.2
      omega
    simp only [apply, write]
  | _ => rfl

theorem Performs.extend {later : Staging} {commands : List Command} {d after : Device}
    (performs : Performs staging d commands after) (grown : later.Extends staging)
    (within : ∀ c ∈ commands, c.Within handles staging.used) : Performs later d commands after := by
  induction commands generalizing d with
  | nil => exact performs
  | cons c rest ih =>
    refine ⟨?_, ?_⟩
    · have legal := performs.1
      cases c <;> simpa only [Legal, grown.size] using legal
    · rw [apply_staging d grown (within c List.mem_cons_self)]
      exact ih performs.2 fun later member => within later (List.mem_cons_of_mem c member)

end Device

end Atlas

end TextureLoom
