import TextureLoom.Proofs.Compile.Arranging

set_option autoImplicit false

namespace TextureLoom

open Bytecode (AnimParams)

/-- What a bake may fail for, however sound its program is: a texture that the provider has no image for, and an
image over the limit. -/
def BakeError.Expected (provider : Provider) : BakeError → Prop
  | .missingTexture id => (provider id).bind TextureView.image? = none
  | .imageTooLarge width height => Bake.pixelLimit < width * height
  | _ => False

namespace Pipeline

/-- The result is an image, or fails for what a bake may fail for. -/
def Outcome.Sound {α : Type} (provider : Provider) (outcome : Outcome α) : Prop :=
  ∀ e, outcome = .error e → e.Expected provider

section

variable {α β : Type} {provider : Provider}

theorem sound_ok (a : α) : Outcome.Sound provider (.ok a) := fun _ failed => nomatch failed

theorem Outcome.Sound.bind {outcome : Outcome α} {next : α → Outcome β} (former : outcome.Sound provider)
    (latter : ∀ a, (next a).Sound provider) : Outcome.Sound provider (outcome >>= next) := by
  intro e failed
  cases outcome with
  | error reason =>
    cases failed
    exact former e rfl
  | ok a => exact latter a e failed

theorem sound_checkSize (width height : Nat) : Outcome.Sound provider (Bake.checkSize width height) := by
  intro e failed
  unfold Bake.checkSize at failed
  split at failed
  · next large =>
    cases failed
    exact large
  · cases failed

end

section

variable (s : Setting)

theorem sound_named (name : String) : (s.named name).Sound s.provider := by
  intro e failed
  unfold Setting.named at failed
  split at failed
  · cases failed
  · next missing =>
    cases failed
    exact missing

/-- A nested pipeline among some meanings has a sound result. -/
def Meaning.Sound (meaning : Meaning) : Prop := ∀ result, meaning = .image result → result.Sound s.provider

variable {s}

theorem Meaning.Sound.toImage {meaning : Meaning} (sound : meaning.Sound s) :
    (meaning.toImage s).Sound s.provider := by
  cases meaning with
  | number value => exact sound_ok default
  | text name => exact sound_named s name
  | image result => exact sound result rfl

theorem Readings.mem_of_get? {args : Readings} {names : List String} {position : Option Nat} {meaning : Meaning}
    (found : args.get? names position = some meaning) : ∃ reading ∈ args, reading.meaning = meaning := by
  unfold Readings.get? at found
  split at found
  · next reading first =>
    exact ⟨reading, List.mem_of_find?_eq_some first, Option.some.inj found⟩
  · obtain ⟨i, _, found⟩ := Option.bind_eq_some_iff.mp found
    obtain ⟨reading, placed, same⟩ := Option.map_eq_some_iff.mp found
    exact ⟨reading, (List.mem_filter.mp (List.mem_of_getElem? placed)).1, same⟩

variable {args : Readings} (sound : ∀ reading ∈ args, reading.meaning.Sound s)

include sound in
theorem Readings.sound_image (names : List String) (position : Nat) :
    (args.image s names position).Sound s.provider := by
  unfold Readings.image
  split
  · next meaning found =>
    obtain ⟨reading, member, same⟩ := Readings.mem_of_get? found
    exact (same ▸ sound reading member).toImage
  · exact sound_ok default

theorem sound_animated (params : AnimParams) (sheet : Image) : (animated s params sheet).Sound s.provider :=
  (sound_checkSize _ _).bind fun _ => sound_ok _

theorem sound_filled (width height : Int) (color : Pixel) :
    (filled width height color).Sound s.provider := (sound_checkSize _ _).bind fun _ => sound_ok _

theorem sound_laid (meanings : List Meaning) (canvas : Image) (sound : ∀ meaning ∈ meanings, meaning.Sound s) :
    (laid s meanings canvas).Sound s.provider := by
  induction meanings, canvas using laid.induct with
  | case1 x y source rest canvas ih =>
    rw [laid]
    refine (sound source (by simp)).toImage.bind fun img => ih img fun meaning member => sound meaning ?_
    simp [member]
  | case2 meanings canvas short =>
    unfold laid
    split
    · next x y source rest => exact absurd rfl (short x y source rest)
    · exact sound_ok canvas

theorem sound_canvas (meanings : List Meaning) (sound : ∀ meaning ∈ meanings, meaning.Sound s) :
    (canvas s meanings).Sound s.provider := by
  unfold canvas
  split
  · next width height insets =>
    exact (sound_filled width height 0).bind fun canvas =>
      sound_laid insets canvas fun meaning member => sound meaning (by simp [member])
  · exact sound_ok default

include sound in
theorem sound_applyStage (name : String) (img : Image) : (applyStage s name args img).Sound s.provider := by
  unfold applyStage
  split
  case h_1 | h_2 | h_3 => exact (Readings.sound_image sound _ _).bind fun top => sound_ok _
  case h_4 => exact (sound_checkSize _ _).bind fun _ => sound_ok _
  case h_16 => exact sound_animated _ img
  all_goals exact sound_ok _

end

end Pipeline

open Pipeline (Setting Outcome Readings)

mutual

/-- Evaluating a pipeline on its own fails only for what a bake may fail for. -/
theorem Pipeline.sound_evaluate (s : Setting) : ∀ p : Pipeline, (p.evaluate s).Sound s.provider
  | ⟨base, stages⟩ => by
    rw [Pipeline.evaluate]
    exact (Base.sound_evaluate s base).bind fun img => Pipeline.sound_evaluateStages s stages img

theorem Base.sound_evaluate (s : Setting) : ∀ base : Base, (base.evaluate s).Sound s.provider
  | .texture name _ => by
    rw [Base.evaluate]
    exact Pipeline.sound_named s name
  | .fill width height color _ => by
    rw [Base.evaluate]
    exact Pipeline.sound_filled width height _
  | .sheet ⟨_, args, _⟩ => by
    rw [Base.evaluate]
    exact (Readings.sound_image (Pipeline.sound_read s args) _ _).bind fun sheet => Pipeline.sound_animated _ sheet
  | .canvas ⟨_, args, _⟩ => by
    rw [Base.evaluate]
    refine Pipeline.sound_canvas _ fun meaning member => ?_
    obtain ⟨reading, isReading, rfl⟩ := List.mem_map.mp member
    exact Pipeline.sound_read s args reading isReading

theorem Pipeline.sound_evaluateStages (s : Setting) :
    ∀ (stages : List Call) (img : Image), (Pipeline.evaluateStages s stages img).Sound s.provider
  | [], img => by
    rw [Pipeline.evaluateStages]
    exact Pipeline.sound_ok img
  | ⟨name, args, _⟩ :: rest, img => by
    rw [Pipeline.evaluateStages]
    exact (Pipeline.sound_applyStage (Pipeline.sound_read s args) name img).bind fun next =>
      Pipeline.sound_evaluateStages s rest next

theorem Pipeline.sound_read (s : Setting) :
    ∀ (args : List Arg), ∀ reading ∈ Pipeline.read s args, reading.meaning.Sound s
  | [], _, member => by
    rw [Pipeline.read] at member
    exact absurd member List.not_mem_nil
  | ⟨name, value, _⟩ :: rest, reading, member => by
    rw [Pipeline.read] at member
    rcases List.mem_cons.mp member with rfl | later
    · exact Value.sound_meaning s value
    · exact Pipeline.sound_read s rest reading later

theorem Value.sound_meaning (s : Setting) : ∀ value : Value, (value.meaning s).Sound s
  | .int _, _, same => by simp [Value.meaning] at same
  | .str _, _, same => by simp [Value.meaning] at same
  | .ident _, _, same => by simp [Value.meaning] at same
  | .nested p, result, same => by
    rw [Value.meaning, Pipeline.Meaning.image.injEq] at same
    exact same ▸ Pipeline.sound_evaluate s p

end

namespace Bytecode

open Reach (follow walk walkBlock)

variable {code : Array UInt8} {room : Nat} {descend : Nat × Nat → Trail → Except Malformed Trail}

/-- A walk over items that can be followed from anywhere comes to an end. -/
theorem exists_foldlM {α : Type} {f : Trail → α → Except Malformed Trail} (items : List α)
    (each : ∀ a ∈ items, ∀ trail, ∃ later, f trail a = .ok later) :
    ∀ trail, ∃ later, items.foldlM f trail = .ok later := by
  induction items with
  | nil => exact fun trail => ⟨trail, rfl⟩
  | cons a rest ih =>
    intro trail
    obtain ⟨middle, first⟩ := each a (by simp) trail
    obtain ⟨later, others⟩ := ih (fun b member => each b (by simp [member])) middle
    rw [List.foldlM_cons, first]
    exact ⟨later, others⟩

/-- A block whose operands can be followed from anywhere can be walked. -/
theorem exists_walkBlock {block : Block} {position : Nat} (ends : block.finish = .ok position)
    (follows : ∀ located ∈ block.instrs, ∀ range ∈ located.instr.sources.filterMap Operand.block?, ∀ trail,
      ∃ later, follow true code descend trail range = .ok later) (trail : Trail) :
    ∃ later, walkBlock true code descend block trail = .ok later := by
  obtain ⟨later, walked⟩ := exists_foldlM (f := fun trail located =>
    (located.instr.sources.filterMap Operand.block?).foldlM (follow true code descend)
      { trail with met := trail.met.push located.instr }) block.instrs
    (fun located member trail => exists_foldlM _ (follows located member) _) trail
  rw [walkBlock, walked, ends]
  exact ⟨later, rfl⟩

/-- A range in the program can be followed from anywhere if its block can be walked. -/
theorem exists_follow {range : Nat × Nat} (nonempty : 0 < range.2) (inside : range.1 + range.2 ≤ code.size)
    (deeper : ∀ trail, ∃ later, descend range trail = .ok later) (trail : Trail) :
    ∃ later, follow true code descend trail range = .ok later := by
  unfold follow
  split
  · exact ⟨trail, rfl⟩
  · rw [if_neg (by omega)]
    exact deeper trail

end Bytecode

namespace Compile

open Bytecode (Block Instr Operand Trail blockRanges locate exists_follow exists_walkBlock)
open Bytecode.Reach (walk)

variable {d : Draft} {jobs : List Job} {p : Pipeline} {ids : String → Nat} {code : Array UInt8}

/-- A range that the block of a pipeline names is that of the block of a pipeline nested in it. -/
theorem IsLinked.range_of_mem (isDraft : Draft.IsDraftOf d jobs p) {index start : Nat} {job : Job}
    {block : List (Instr Ref)} (isBlock : IsBlockOf jobs index job block) {located : Bytecode.Located}
    (member : located ∈ locate start (block.map (·.map (Ref.linked (ranges d.blocks) ids)))) {range : Nat × Nat}
    (named : range ∈ located.instr.sources.filterMap Operand.block?) :
    ∃ inner nestedJob nestedBlock, jobs[inner]? = some nestedJob ∧ nestedJob.room < job.room ∧
      d.blocks[inner]? = some nestedBlock ∧
      range = (blockStart d.blocks.toList inner, blockLength nestedBlock) := by
  have listed : range ∈ blockRanges (locate start (block.map (·.map (Ref.linked (ranges d.blocks) ids)))) :=
    List.mem_flatMap.mpr ⟨located, member, named⟩
  rw [blockRanges_eq] at listed
  obtain ⟨inner, isNumber, rfl⟩ := List.mem_map.mp listed
  obtain ⟨i, inBlock, isNumber⟩ := List.mem_flatMap.mp isNumber
  obtain ⟨ref, isSource, number⟩ := List.mem_filterMap.mp isNumber
  cases ref with
  | name text => cases number
  | block index =>
    cases number
    obtain ⟨_, nestedJob, isJob, less⟩ := isBlock.nested i inBlock inner isSource
    obtain ⟨nestedBlock, found, _⟩ := exists_block isDraft isJob
    refine ⟨inner, nestedJob, nestedBlock, isJob, less, found, ?_⟩
    rw [Array.getD_eq_getD_getElem?, ranges_getElem?, found, Option.map_some, Option.getD_some]

/-- Linked code can be walked from each of its blocks that has room for what is nested in it. -/
theorem IsLinked.exists_walk (linked : IsLinked d ids code) (isDraft : Draft.IsDraftOf d jobs p) (room : Nat) :
    ∀ {index stop : Nat} {job : Job} {block : List (Instr Ref)}, jobs[index]? = some job → job.room ≤ room →
      d.blocks[index]? = some block → blockStart d.blocks.toList index + blockLength block ≤ stop →
        ∀ trail, ∃ later, walk true code room (Block.of code (blockStart d.blocks.toList index) stop) trail =
          .ok later := by
  -- On the levels left: what is nested in a pipeline has less room than the pipeline itself.
  induction room with
  | zero =>
    intro index stop job block isJob enough found stops
    obtain ⟨_, same, _, isBlock⟩ := exists_block isDraft isJob
    cases found.symm.trans same
    rw [linked.block_of isDraft found stops]
    apply exists_walkBlock rfl
    intro located member range named
    obtain ⟨inner, nestedJob, nestedBlock, _, less, _⟩ := IsLinked.range_of_mem isDraft isBlock member named
    omega
  | succ room ih =>
    intro index stop job block isJob enough found stops
    obtain ⟨_, same, _, isBlock⟩ := exists_block isDraft isJob
    cases found.symm.trans same
    rw [linked.block_of isDraft found stops]
    apply exists_walkBlock rfl
    intro located member range named
    obtain ⟨inner, nestedJob, nestedBlock, isNested, less, nestedFound, rfl⟩ :=
      IsLinked.range_of_mem isDraft isBlock member named
    have inside := blockStart_add_le_sum (by rw [Array.getElem?_toList]; exact nestedFound)
    rw [← linked.size_eq] at inside
    apply exists_follow (blockLength_pos nestedBlock) inside
    exact fun trail => ih isNested (by omega) nestedFound (Nat.le_refl _) _

/-- All that linked code reaches can be decoded. -/
theorem IsLinked.exists_sites (linked : IsLinked d ids code) (isDraft : Draft.IsDraftOf d jobs p) :
    ∃ sites, Bytecode.textureSites code = .ok sites := by
  obtain ⟨block, found, listed, _⟩ := exists_block isDraft isDraft.first
  have inside := blockStart_add_le_sum listed
  rw [← linked.size_eq] at inside
  have deep : Source.nestingLimit ≤ Bytecode.depthLimit := by decide
  obtain ⟨trail, walked⟩ := linked.exists_walk isDraft Bytecode.depthLimit isDraft.first deep found inside {}
  rw [blockStart_zero] at walked
  rw [Bytecode.textureSites, Bytecode.Reach.walkProgram, walked]
  exact ⟨_, rfl⟩

/-- Linked code is accepted as a program. -/
theorem IsLinked.ofBytes_eq (linked : IsLinked d ids code) (isDraft : Draft.IsDraftOf d jobs p) :
    Program.ofBytes code = .ok ⟨code, [], true⟩ := by
  obtain ⟨block, found, listed, _⟩ := exists_block isDraft isDraft.first
  have inside := blockStart_add_le_sum listed
  have nonempty := blockLength_pos block
  have short := isDraft.size_le
  rw [← linked.size_eq] at inside short
  obtain ⟨sites, found⟩ := linked.exists_sites isDraft
  rw [Program.ofBytes, if_neg (by simp only [Array.isEmpty_iff_size_eq_zero]; omega), if_neg (by omega), found]

end Compile

namespace Program

variable {text : String} {program linked : Program} {resolver : String → Option Nat}

theorem resolves_of_resolve {patches : List Bytecode.Listing.Patch} {ids : List Nat} :
    ∀ {done : Array Nat}, resolve resolver patches done = .ok ids →
      ∀ patch ∈ patches, ∃ id, resolver patch.name = some id ∧ id < Bytecode.limit24 := by
  induction patches with
  | nil => exact fun _ _ member => absurd member List.not_mem_nil
  | cons first rest ih =>
    intro done success patch member
    rw [resolve] at success
    split at success
    · cases success
    · next id found =>
      split at success
      · next small =>
        rcases List.mem_cons.mp member with rfl | later
        · exact ⟨id, found, small⟩
        · exact ih success patch later
      · cases success

/-- A program that links has an id for each of its names. -/
theorem resolves_of_link (links : program.link resolver = (linked, .ok ())) :
    ∀ patch ∈ program.patches, ∃ id, resolver patch.name = some id ∧ id < Bytecode.limit24 := by
  unfold link at links
  split at links
  · cases links
  · next ids success => exact resolves_of_resolve success

end Program

end TextureLoom
