import Mathlib.Order.Bounds.Defs
import TextureLoom.Proofs.Atlas.Tabling

set_option autoImplicit false

namespace TextureLoom.Atlas.Staging

/-- A call for a range: how many bytes, and what its start has to be a multiple of, a 64-bit number. -/
structure Request where
  count : Nat
  alignment : Nat
  word : alignment < 0x10000000000000000

/-- Starts are multiples of this; with an alignment of zero they are any numbers. -/
def Request.stride (r : Request) : Nat := max r.alignment 1

/-- Where the range may start when the bytes up to `used` are in use. -/
def Request.starts (r : Request) (used : Nat) : Set Nat := {start | used ≤ start ∧ r.stride ∣ start}

/-- A range that was handed out. -/
structure Range where
  request : Request
  start : Nat

def Range.stop (r : Range) : Nat := r.start + r.request.count

variable {s : Staging} {r : Request} {size : Nat}

theorem Request.stride_pos (r : Request) : 0 < r.stride := Nat.lt_of_lt_of_le Nat.one_pos (Nat.le_max_right _ _)

theorem Request.stride_lt (r : Request) : r.stride < 0x10000000000000000 := Nat.max_lt.mpr ⟨r.word, by decide⟩

/-- Rounding up gives the next multiple. -/
theorem isLeast_roundUp (r : Request) (used : Nat) :
    IsLeast (r.starts used) ((used + (r.stride - 1)) / r.stride * r.stride) := by
  have positive := r.stride_pos
  have rounded := Nat.div_add_mod (used + (r.stride - 1)) r.stride
  have rest := Nat.mod_lt (used + (r.stride - 1)) positive
  rw [Nat.mul_comm] at rounded
  refine ⟨⟨by omega, Nat.dvd_mul_left _ _⟩, ?_⟩
  rintro start ⟨behind, multiple, rfl⟩
  rw [Nat.mul_comm]
  refine Nat.mul_le_mul_left _ ?_
  -- A multiple that is not below `used` is past the sum once one more stride is added.
  rw [← Nat.lt_succ_iff, Nat.div_lt_iff_lt_mul positive, Nat.succ_mul, Nat.mul_comm multiple]
  omega

theorem sum64?_eq_some_iff {a b sum : Nat} :
    sum64? a b = some sum ↔ a + b < 0x10000000000000000 ∧ a + b = sum := by
  unfold sum64?
  split <;> simp [*]

/-- A range is found just when neither sum is too large and its end is in the buffer. -/
theorem nextRange?_eq_some_iff {start stop : Nat} : s.nextRange? r.count r.alignment = some (start, stop) ↔
    s.used + (r.stride - 1) < 0x10000000000000000 ∧ start = (s.used + (r.stride - 1)) / r.stride * r.stride ∧
      start + r.count < 0x10000000000000000 ∧ stop = start + r.count ∧ stop ≤ s.size := by
  rw [nextRange?, ← Request.stride]
  simp only [Option.bind_eq_bind, Option.bind_eq_some_iff, sum64?_eq_some_iff]
  constructor
  · rintro ⟨_, ⟨first, rfl⟩, _, ⟨second, rfl⟩, found⟩
    split at found
    · cases found
    · cases found
      exact ⟨first, rfl, second, rfl, by omega⟩
  · rintro ⟨first, rfl, second, rfl, inside⟩
    exact ⟨_, ⟨first, rfl⟩, _, ⟨second, rfl⟩, if_neg (Nat.not_lt.mpr inside)⟩

/-- No sum is too large for its word if the range fits: a start that is not zero is at least as large as its stride. -/
theorem word_of_fits {start : Nat} (small : s.size ≤ 0x8000000000000000) (least : IsLeast (r.starts s.used) start)
    (fits : start + r.count ≤ s.size) : s.used + (r.stride - 1) < 0x10000000000000000 := by
  obtain ⟨⟨behind, multiple⟩, -⟩ := least
  have bound := r.stride_lt
  rcases Nat.eq_zero_or_pos start with rfl | positive
  · omega
  · have within := Nat.le_of_dvd positive multiple
    omega

/-- A range is handed out just when it fits, and then from the first place on where it may start. No sum of 64-bit
numbers stands in the way, as no buffer has more than half the bytes that they can count. -/
theorem allocate_cases (small : s.size ≤ 0x8000000000000000) (r : Request) :
    ∃ start, IsLeast (r.starts s.used) start ∧ s.allocate r.count r.alignment =
      if start + r.count ≤ s.size then some (start, s.use (start + r.count)) else none := by
  have least := isLeast_roundUp r s.used
  refine ⟨_, least, ?_⟩
  rw [allocate]
  by_cases fits : (s.used + (r.stride - 1)) / r.stride * r.stride + r.count ≤ s.size
  · rw [if_pos fits, nextRange?_eq_some_iff.mpr ⟨word_of_fits small least fits, rfl, by omega, rfl, fits⟩]
    rfl
  · rw [if_neg fits, Option.map_eq_none_iff, Option.eq_none_iff_forall_ne_some]
    rintro ⟨start, stop⟩ found
    obtain ⟨-, rfl, -, rfl, inside⟩ := nextRange?_eq_some_iff.mp found
    exact fits inside

/-- What is done with a buffer, by whichever of the atlases that share it. -/
inductive Use where
  | allocate (request : Request)
  | write (offset : Nat) (data : ByteArray)
  | reset

/-- A buffer and the ranges of it that were handed out since they were last taken back, the oldest first. -/
structure Ledger where
  staging : Staging
  ranges : List Range

namespace Ledger

/-- A call that is refused changes nothing. -/
def step (l : Ledger) : Use → Ledger
  | .allocate request =>
    match l.staging.allocate request.count request.alignment with
    | some (start, staging) => ⟨staging, l.ranges ++ [⟨request, start⟩]⟩
    | none => l
  | .write offset data => { l with staging := l.staging.write offset data }
  | .reset => ⟨l.staging.reset, []⟩

/-- The ranges lie in order in the part of the buffer that is in use. -/
structure Sound (size : Nat) (l : Ledger) : Prop where
  size_eq : l.staging.size = size
  used_le : l.staging.used ≤ size
  apart : l.ranges.Pairwise fun first second => first.stop ≤ second.start
  inUse : ∀ range ∈ l.ranges, range.stop ≤ l.staging.used
  aligned : ∀ range ∈ l.ranges, range.request.stride ∣ range.start

variable {l : Ledger}

theorem sound_of_create (created : create size = .ok s) : Sound size ⟨s, []⟩ := by
  unfold create at created
  split at created
  · cases created
  · cases created
    exact ⟨Bytes.zeros_size size, Nat.zero_le size, .nil, by simp, by simp⟩

/-- A range that is handed out starts behind all those before it. -/
theorem Sound.allocate (sound : Sound size l) (small : size ≤ 0x8000000000000000) (request : Request) :
    Sound size (l.step (.allocate request)) := by
  obtain ⟨start, ⟨⟨behind, multiple⟩, -⟩, answer⟩ := allocate_cases (sound.size_eq ▸ small) request
  rw [sound.size_eq] at answer
  rw [step, answer]
  by_cases fits : start + request.count ≤ size
  · rw [if_pos fits]
    refine ⟨sound.size_eq, fits, ?_, ?_, ?_⟩
    · rw [List.pairwise_append]
      refine ⟨sound.apart, List.pairwise_singleton _ _, fun range earlier last isLast => ?_⟩
      rw [List.mem_singleton.mp isLast]
      exact Nat.le_trans (sound.inUse range earlier) behind
    · intro range member
      rcases List.mem_append.mp member with earlier | isLast
      · exact Nat.le_trans (sound.inUse range earlier) (Nat.le_trans behind (Nat.le_add_right _ _))
      · rw [List.mem_singleton.mp isLast]
        exact Nat.le_refl _
    · intro range member
      rcases List.mem_append.mp member with earlier | isLast
      · exact sound.aligned range earlier
      · rw [List.mem_singleton.mp isLast]
        exact multiple
  · rw [if_neg fits]
    exact sound

theorem Sound.step (sound : Sound size l) (small : size ≤ 0x8000000000000000) (use : Use) :
    Sound size (l.step use) := by
  cases use with
  | allocate request => exact sound.allocate small request
  | write offset data =>
    exact ⟨(Bytes.blit_size _ _ _ _ _).trans sound.size_eq, sound.used_le, sound.apart, sound.inUse, sound.aligned⟩
  | reset => exact ⟨sound.size_eq, Nat.zero_le size, .nil, by simp [Ledger.step], by simp [Ledger.step]⟩

theorem Sound.run (sound : Sound size l) (small : size ≤ 0x8000000000000000) (uses : List Use) :
    Sound size (uses.foldl Ledger.step l) := by
  induction uses generalizing l with
  | nil => exact sound
  | cons use rest ih => exact ih (sound.step small use)

/-- The buffer after some calls and writes is this one, whatever ranges were handed out before. -/
def Passes (before after : Staging) : Prop :=
  ∃ uses : List Use, .reset ∉ uses ∧ ∀ ranges, (uses.foldl step ⟨before, ranges⟩).staging = after

namespace Passes

theorem refl (s : Staging) : Passes s s := ⟨[], List.not_mem_nil, fun _ => rfl⟩

theorem trans {first middle last : Staging} (earlier : Passes first middle) (later : Passes middle last) :
    Passes first last := by
  obtain ⟨uses, keeps, passes⟩ := earlier
  obtain ⟨more, keepsToo, passesOn⟩ := later
  refine ⟨uses ++ more, fun member => (List.mem_append.mp member).elim keeps keepsToo, fun ranges => ?_⟩
  rw [List.foldl_append, ← passesOn (uses.foldl step ⟨first, ranges⟩).ranges, ← passes ranges]

end Passes

theorem passes_stage {f next : Frame} {count start : Nat} {bytes : ByteArray}
    (word : f.atlas.alignment < 0x10000000000000000) (staged : f.stage count bytes = some (start, next)) :
    Passes f.staging next.staging := by
  unfold Frame.stage at staged
  split at staged
  · cases staged
  · rename_i start stop found
    cases staged
    refine ⟨[.allocate ⟨count, f.atlas.alignment, word⟩, .write start bytes], by simp, fun ranges => ?_⟩
    rw [List.foldl_cons, step, Staging.allocate, found]
    rfl

theorem passes_work {f g : Frame} (word : f.atlas.alignment < 0x10000000000000000) (work : f.Work g) :
    Passes f.staging g.staging := by
  cases work with
  | announce event =>
    rw [(Frame.announce_keeps f event).1]
    exact .refl _
  | @upload _ _ _ _ next texture placed staged =>
    have passes : Passes f.staging next.staging := passes_stage word staged
    exact passes
  | @uploadPlanned _ _ _ _ _ next running texture planned staged =>
    have passes : Passes f.staging next.staging := passes_stage word staged
    rw [← (Frame.turnRepack_keeps next .transferTarget).1] at passes
    exact passes
  | _ => exact .refl _

theorem passes_uploadTable {f : Frame} (word : f.atlas.alignment < 0x10000000000000000) :
    Passes f.staging f.uploadTable.staging := by
  unfold Frame.uploadTable
  split
  · dsimp only
    split
    · rw [(Frame.announce_keeps f _).1]
      exact .refl _
    · rename_i start next staged
      have passes : Passes f.staging next.staging := passes_stage word staged
      exact passes
  · exact .refl _

/-- All that the flush of an atlas does with the buffer is to call for ranges and to write. -/
theorem passes_flush {a : Atlas} (word : a.alignment < 0x10000000000000000) (device : Device) (s : Staging) :
    Passes s (a.flush device s).staging := by
  let start : Frame := ⟨a, device, s, #[], []⟩
  obtain ⟨g, written, works, isFlush⟩ := Frame.works_flush start
  have adopted : Fixes a start.adoptReady.atlas := (Frame.leads_adoptReady start).fixes
  have worked : Passes s g.staging ∧ g.atlas.alignment = a.alignment := by
    refine works.induction (motive := fun g => Passes s g.staging ∧ g.atlas.alignment = a.alignment)
      ⟨?_, adopted.alignment⟩ fun f next work before => ?_
    · rw [start.adoptReady_keeps.2.1]
      exact .refl s
    · exact ⟨before.1.trans (passes_work (before.2 ▸ word) work), work.leads.fixes.alignment.trans before.2⟩
  rw [show a.flush device s = start.flush from rfl, isFlush, (Frame.finishRepack_keeps _ _).1]
  exact worked.1.trans (passes_uploadTable (worked.2 ▸ word))

/-- The ranges are apart, in the buffer and aligned. The next one is the first that may be next, if that fits; if it
does not fit, no other would, and nothing changes. Whichever atlas draws from the buffer, its flush is a sequence of
such calls. -/
structure Exact (size : Nat) (l : Ledger) : Prop where
  apart : l.ranges.Pairwise fun first second => first.stop ≤ second.start
  inside : ∀ range ∈ l.ranges, range.stop ≤ size
  aligned : ∀ range ∈ l.ranges, range.request.stride ∣ range.start
  next : ∀ request, ∃ start, IsLeast (request.starts l.staging.used) start ∧
    (start + request.count ≤ size ∧
        l.staging.allocate request.count request.alignment = some (start, l.staging.use (start + request.count)) ∨
      size < start + request.count ∧ l.staging.allocate request.count request.alignment = none ∧
        l.step (.allocate request) = l)
  shared : ∀ (a : Atlas) (device : Device), a.alignment < 0x10000000000000000 →
    Passes l.staging (a.flush device l.staging).staging

/-- Whatever is done with a buffer, its ranges are handed out exactly. -/
theorem exact_of_create (created : create size = .ok s) (small : size ≤ 0x8000000000000000) (uses : List Use) :
    Exact size (uses.foldl step ⟨s, []⟩) := by
  have sound := (sound_of_create created).run small uses
  generalize uses.foldl step ⟨s, []⟩ = l at sound
  refine ⟨sound.apart, fun range member => Nat.le_trans (sound.inUse range member) sound.used_le, sound.aligned, ?_,
    fun a device word => passes_flush word device l.staging⟩
  intro request
  obtain ⟨start, least, answer⟩ := allocate_cases (sound.size_eq ▸ small) request
  rw [sound.size_eq] at answer
  refine ⟨start, least, ?_⟩
  by_cases fits : start + request.count ≤ size
  · rw [if_pos fits] at answer
    exact .inl ⟨fits, answer⟩
  · rw [if_neg fits] at answer
    exact .inr ⟨Nat.lt_of_not_le fits, answer, by rw [step, answer]⟩

/-- Calls for a buffer of 64 bytes: a range that is taken back, ranges of different alignments, also of none, two whose
sums are no 64-bit numbers, one for which there is no byte left, and an empty one behind the last byte. -/
def crowded : List Use :=
  [.allocate ⟨5, 1, by decide⟩, .reset, .allocate ⟨3, 4, by decide⟩, .allocate ⟨8, 16, by decide⟩, .write 16 ⟨#[1, 2]⟩,
    .allocate ⟨0xffffffffffffffff, 1, by decide⟩, .allocate ⟨1, 0xffffffffffffffff, by decide⟩,
    .allocate ⟨40, 0, by decide⟩, .allocate ⟨1, 1, by decide⟩, .allocate ⟨0, 64, by decide⟩]

theorem exact_of_create_crowded : create 64 = .ok ⟨Bytes.zeros 64, 0⟩ ∧ 64 ≤ 0x8000000000000000 ∧
    (crowded.foldl step ⟨⟨Bytes.zeros 64, 0⟩, []⟩).ranges.map (·.start) = [0, 16, 24, 64] ∧
    Exact 64 (crowded.foldl step ⟨⟨Bytes.zeros 64, 0⟩, []⟩) :=
  ⟨rfl, by decide, by decide +kernel, exact_of_create rfl (by decide) crowded⟩

end Ledger

end TextureLoom.Atlas.Staging
