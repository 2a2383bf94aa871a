import TextureLoom.Proofs.Atlas.Commands
import TextureLoom.Proofs.Atlas.World

set_option autoImplicit false

namespace TextureLoom.Atlas

open Bytes

namespace Submission

/-- Behind the flush the id was valid, and the image that it returned shows the id on this device. -/
structure Keeps (s : Submission) (d : Device) (id : Nat) : Prop where
  valid : s.after.status? id = some .valid
  marked : ∃ e, s.after.entry? id = some e ∧ e.isValid = true
  shows : Shows d s.after s.accepted id

/-- The list names handles up to `handles` and staged bytes up to `used`. -/
structure Known (s : Submission) (handles used : Nat) : Prop where
  commands : ∀ c ∈ s.commands, c.Within handles used
  image : s.after.image.handle ≤ handles

theorem Known.mono {s : Submission} {handles used moreHandles moreUsed : Nat} (known : s.Known handles used)
    (lessHandles : handles ≤ moreHandles) (lessUsed : used ≤ moreUsed) : s.Known moreHandles moreUsed where
  commands := fun c member => (known.commands c member).mono lessHandles lessUsed
  image := Nat.le_trans known.image lessHandles

theorem Keeps.of_texel? {s : Submission} {d other : Device} {id : Nat} (keeps : s.Keeps d id)
    (same : ∀ layer x y, other.texel? s.after.image.handle layer x y = d.texel? s.after.image.handle layer x y) :
    s.Keeps other id where
  valid := keeps.valid
  marked := keeps.marked
  shows := by
    obtain ⟨buffer, place, accepted, placed, width, height, texels⟩ := keeps.shows
    refine ⟨buffer, place, accepted, placed, width, height, ?_⟩
    intro i column j row
    exact (same _ _ _).trans (texels i column j row)

end Submission

/-- The lists are performed one after the other and lead to `last`; behind each of them its promised ids are shown. -/
def Replays (promised : Submission → Nat → Prop) (staging : Staging) : Device → List Submission → Device → Prop
  | d, [], last => last = d
  | d, s :: rest, last => ∃ next, Device.Performs staging d s.commands next ∧
      (∀ id, promised s id → s.Keeps next id) ∧ Replays promised staging next rest last

namespace Replays

variable {promised fewer : Submission → Nat → Prop} {staging : Staging} {d last : Device} {waiting : List Submission}

theorem handles (replays : Replays promised staging d waiting last) : last.handles = d.handles := by
  induction waiting generalizing d with
  | nil => rw [replays]
  | cons s rest ih =>
    obtain ⟨next, performs, _, later⟩ := replays
    exact (ih later).trans performs.handles

theorem mono (replays : Replays promised staging d waiting last)
    (less : ∀ s ∈ waiting, ∀ id, fewer s id → promised s id) : Replays fewer staging d waiting last := by
  induction waiting generalizing d with
  | nil => exact replays
  | cons s rest ih =>
    obtain ⟨next, performs, keeps, later⟩ := replays
    exact ⟨next, performs, fun id isPromised => keeps id (less s (by simp) id isPromised),
      ih later fun s member => less s (by simp [member])⟩

theorem append {s : Submission} {next : Device} (replays : Replays promised staging d waiting last)
    (performs : Device.Performs staging last s.commands next) (keeps : ∀ id, promised s id → s.Keeps next id) :
    Replays promised staging d (waiting ++ [s]) next := by
  induction waiting generalizing d with
  | nil =>
    subst replays
    exact ⟨next, performs, keeps, rfl⟩
  | cons first rest ih =>
    obtain ⟨middle, performsFirst, keepsFirst, later⟩ := replays
    exact ⟨middle, performsFirst, keepsFirst, ih later⟩

/-- What is staged behind the bytes in use makes no difference. -/
theorem extend {later : Staging} {handles : Nat} (replays : Replays promised staging d waiting last)
    (known : ∀ s ∈ waiting, s.Known handles staging.used) (grown : later.Extends staging) :
    Replays promised later d waiting last := by
  induction waiting generalizing d with
  | nil => exact replays
  | cons s rest ih =>
    obtain ⟨next, performs, keeps, after⟩ := replays
    exact ⟨next, performs.extend grown (known s (by simp)).commands, keeps,
      ih after fun s member => known s (by simp [member])⟩

/-- A change of the device that makes no difference to the commands, and none to images with smaller handles. -/
theorem change {change : Device → Device} (replays : Replays promised staging d waiting last)
    (known : ∀ s ∈ waiting, s.Known d.handles staging.used)
    (passes : ∀ c : Command, c.Within d.handles staging.used → Device.Passes change staging d.handles c)
    (same : ∀ other : Device, other.handles = d.handles → ∀ handle ≤ d.handles, ∀ layer x y,
      (change other).texel? handle layer x y = other.texel? handle layer x y) :
    Replays promised staging (change d) waiting (change last) := by
  induction waiting generalizing d with
  | nil =>
    subst replays
    rfl
  | cons s rest ih =>
    obtain ⟨next, performs, keeps, after⟩ := replays
    have first := known s (by simp)
    have sameHandles := performs.handles
    refine ⟨change next, performs.change fun c member => passes c (first.commands c member), ?_, ?_⟩
    · intro id isPromised
      exact (keeps id isPromised).of_texel? fun layer x y => same next sameHandles _ first.image layer x y
    · rw [← sameHandles] at passes same
      exact ih after (fun s member => sameHandles ▸ known s (by simp [member])) passes same

/-- Lists that are performed lead to the device that there is once they are submitted. -/
theorem settled (replays : Replays promised staging d waiting last) :
    waiting.foldl (fun d s => (d.submit staging s.commands).1) d = last := by
  induction waiting generalizing d with
  | nil => exact replays.symm
  | cons s rest ih =>
    obtain ⟨next, performs, _, later⟩ := replays
    rw [List.foldl_cons, performs.submit]
    exact ih later

end Replays

namespace Frame

/-- The lists that wait and what the frame has recorded are performed in order, and lead to this device. -/
structure Reaches (promised : Submission → Nat → Prop) (waiting : List Submission) (f : Frame) (live : Device) :
    Prop where
  replays : ∃ middle, Replays promised f.staging f.device waiting middle ∧
    Device.Performs f.staging middle f.commands.toList live
  known : ∀ s ∈ waiting, s.Known f.device.handles f.staging.used
  within : ∀ c ∈ f.commands.toList, c.Within f.device.handles f.staging.used

variable {promised fewer : Submission → Nat → Prop} {waiting : List Submission} {f after : Frame} {live : Device}

namespace Reaches

theorem handles (reaches : f.Reaches promised waiting live) : live.handles = f.device.handles := by
  obtain ⟨middle, replays, performs⟩ := reaches.replays
  exact performs.handles.trans replays.handles

theorem mono (reaches : f.Reaches promised waiting live)
    (less : ∀ s ∈ waiting, ∀ id, fewer s id → promised s id) : f.Reaches fewer waiting live :=
  { reaches with
    replays := by
      obtain ⟨middle, replays, performs⟩ := reaches.replays
      exact ⟨middle, replays.mono less, performs⟩ }

theorem congr (reaches : f.Reaches promised waiting live) (device : after.device = f.device)
    (staging : after.staging = f.staging) (commands : after.commands = f.commands) :
    after.Reaches promised waiting live where
  replays := by
    rw [device, staging, commands]
    exact reaches.replays
  known := by
    rw [device, staging]
    exact reaches.known
  within := by
    rw [device, staging, commands]
    exact reaches.within

theorem modifyAtlas (reaches : f.Reaches promised waiting live) (change : Atlas → Atlas) :
    (f.modifyAtlas change).Reaches promised waiting live := reaches.congr rfl rfl rfl

theorem announce (reaches : f.Reaches promised waiting live) (event : Event) :
    (f.announce event).Reaches promised waiting live := by
  unfold Frame.announce
  split
  · exact reaches
  · exact reaches.congr rfl rfl rfl

/-- Commands that run where the frame leads to. -/
theorem record {commands : List Command} {touched : List Nat} {next : Device}
    (reaches : f.Reaches promised waiting live) (runs : Runs f.staging commands touched live next)
    (within : ∀ c ∈ commands, c.Within f.device.handles f.staging.used) :
    (f.record commands).Reaches promised waiting next where
  replays := by
    obtain ⟨middle, replays, performs⟩ := reaches.replays
    refine ⟨middle, replays, ?_⟩
    simp only [Frame.record, Array.toList_appendList]
    exact performs.append runs.performs
  known := reaches.known
  within := by
    intro c member
    simp only [Frame.record, Array.toList_appendList, List.mem_append] at member
    rcases member with earlier | new
    · exact reaches.within c earlier
    · exact within c new

/-- An image created while a frame is recorded is there when the commands run, and as it was created. -/
theorem create (reaches : f.Reaches promised waiting live) (img : DeviceImage) :
    { f with device := f.device.added img }.Reaches promised waiting (live.added img) where
  replays := by
    obtain ⟨middle, replays, performs⟩ := reaches.replays
    refine ⟨middle.added img, ?_, ?_⟩
    · refine replays.change reaches.known (fun c within => Device.passes_added img within) ?_
      intro other sameHandles handle earlier layer x y
      rw [Device.texel?, Device.get?_added other img (sameHandles ▸ earlier), Device.texel?]
    · exact performs.change fun c member => Device.passes_added img (replays.handles ▸ reaches.within c member)
  known := fun s member => (reaches.known s member).mono (Nat.le_succ _) (Nat.le_refl _)
  within := fun c member => (reaches.within c member).mono (Nat.le_succ _) (Nat.le_refl _)

/-- More staged bytes change nothing of what was recorded. -/
theorem extend {staging : Staging} (reaches : f.Reaches promised waiting live) (grown : staging.Extends f.staging) :
    { f with staging }.Reaches promised waiting live where
  replays := by
    obtain ⟨middle, replays, performs⟩ := reaches.replays
    exact ⟨middle, replays.extend reaches.known grown, performs.extend grown reaches.within⟩
  known := fun s member => (reaches.known s member).mono (Nat.le_refl _) grown.used
  within := fun c member => (reaches.within c member).mono (Nat.le_refl _) grown.used

end Reaches

/-- A range of the staging buffer that was taken for some bytes. -/
structure Staged (f after : Frame) (count start : Nat) (bytes : ByteArray) : Prop where
  reached : ∀ promised waiting live, f.Reaches promised waiting live → after.Reaches promised waiting live
  atlas : after.atlas = f.atlas
  device : after.device = f.device
  commands : after.commands = f.commands
  grown : after.staging.Extends f.staging
  aligned : f.atlas.alignment ∣ start
  used : start + count ≤ after.staging.used
  inside : start + count ≤ after.staging.size
  holds : bytes.size = count → ∀ k < count, byteAt after.staging.bytes (start + k) = byteAt bytes k

theorem staged_of_stage {count start : Nat} {bytes : ByteArray} (positive : 0 < f.atlas.alignment)
    (found : f.stage count bytes = some (start, after)) : f.Staged after count start bytes := by
  unfold stage at found
  split at found
  · cases found
  · rename_i stop isRange
    cases found
    have range := Staging.isRange_of_nextRange? positive isRange
    have stopEq := range.stop_eq
    have inside := range.inside
    exact
      { reached := fun promised waiting live reaches => reaches.extend (Staging.extends_use_write range bytes)
        atlas := rfl
        device := rfl
        commands := rfl
        grown := Staging.extends_use_write range bytes
        aligned := range.aligned
        used := by
          simp only [Staging.write, Staging.use]
          omega
        inside := by
          have size := (Staging.extends_use_write range bytes).size
          simp only [size]
          omega
        holds := fun size k bound => Staging.byteAt_use_write range size bound }

end Frame

end TextureLoom.Atlas
