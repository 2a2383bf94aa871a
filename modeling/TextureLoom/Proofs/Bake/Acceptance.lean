import TextureLoom.Program
import TextureLoom.Proofs.Bake.Dependence
import TextureLoom.Proofs.Compile.Reading

set_option autoImplicit false

namespace TextureLoom

open Bytecode (AnimParams Block Inset Instr Located Malformed Operand Trail)
open Bytecode.Reach (follow walk walkBlock)

/-- The shape of the code is at fault: bytes that are no instruction, or a block outside the program or nested too
deep. -/
def BakeError.Structural : BakeError → Prop
  | .undecodable _ | .blockOutOfRange .. | .tooDeep => True
  | _ => False

namespace Bytecode.Reach

/-- Follows the block that an operand names. -/
def heed (code : Array UInt8) (descend : Nat × Nat → Trail → Except Malformed Trail) (trail : Trail)
    (operand : Operand) : Except Malformed Trail :=
  match operand.block? with
  | none => .ok trail
  | some range => follow true code descend trail range

theorem foldlM_follow (code : Array UInt8) (descend : Nat × Nat → Trail → Except Malformed Trail)
    (operands : List Operand) (trail : Trail) :
    (operands.filterMap Operand.block?).foldlM (follow true code descend) trail =
      operands.foldlM (heed code descend) trail := by
  rw [List.foldlM_filterMap]
  congr 1
  funext trail operand
  unfold heed
  cases operand.block? <;> rfl

end Bytecode.Reach

open Bytecode.Reach (heed foldlM_follow)

namespace Bake

/-- The blocks that a walk has entered are those finished and those under way, which lie in the program. -/
structure Memory.Matches (memory : Memory) (code : Array UInt8) (active entered : List (Nat × Nat)) : Prop where
  entered : ∀ range, range ∈ entered ↔ (memory.blocks.lookup range).isSome ∨ range ∈ active
  inside : ∀ range ∈ active, ¬(range.2 = 0 ∨ code.size < range.1 + range.2)

/-- From every memory where the walk is at `start`, the run ends where the walk is at `finish`, or fails for
something else than the shape of the code. -/
def Sound {α : Type} (code : Array UInt8) (active : List (Nat × Nat)) (start finish : Trail) (run : Machine α) :
    Prop :=
  ∀ memory : Memory, memory.Matches code active start.entered →
    match run.run.run memory with
    | (.ok _, after) => after.Matches code active finish.entered
    | (.error e, _) => ¬e.Structural

section

variable {α β : Type} {code : Array UInt8} {active : List (Nat × Nat)} {start middle finish : Trail}

theorem sound_pure (a : α) : Sound code active start start (pure a) := fun _ entered => entered

theorem sound_throw {e : BakeError} (other : ¬e.Structural) :
    Sound code active start finish (throw e : Machine α) := fun _ _ => other

theorem Sound.bind {run : Machine α} {next : α → Machine β} (former : Sound code active start middle run)
    (latter : ∀ a, Sound code active middle finish (next a)) : Sound code active start finish (run >>= next) := by
  intro memory entered
  have outcome := former memory entered
  rw [run_bind]
  generalize run.run.run memory = whole at outcome
  rcases whole with ⟨e | a, after⟩
  · exact outcome
  · exact latter a after outcome

theorem sound_checkSize (width height : Nat) : Sound code active start start (checkSize width height) := by
  unfold checkSize
  split
  · exact sound_throw not_false
  · exact sound_pure _

theorem sound_checkNonempty (what : String) (width height position : Nat) :
    Sound code active start start (checkNonempty what width height position) := by
  unfold checkNonempty
  split
  · exact sound_throw not_false
  · exact sound_pure _

theorem sound_checkFrames (params : AnimParams) (sheet : Image) :
    Sound code active start start (checkFrames params sheet) := sound_checkSize _ _

theorem sound_needBase (i : Instr Operand) (position : Nat) (current : Option Image) :
    Sound code active start start (needBase i position current) := by
  cases current with
  | none => exact sound_throw not_false
  | some img => exact sound_pure img

end

section

variable {code : Array UInt8} {active : List (Nat × Nat)} {descend : Nat × Nat → Trail → Except Malformed Trail}
  {load : Operand → Machine Image} {seconds : Float}

/-- Loading an operand is sound where the walk can follow it. -/
def SoundLoads (code : Array UInt8) (active : List (Nat × Nat)) (descend : Nat × Nat → Trail → Except Malformed Trail)
    (load : Operand → Machine Image) : Prop :=
  ∀ operand trail later, heed code descend trail operand = .ok later → Sound code active trail later (load operand)

theorem sound_placeInsets (loads : SoundLoads code active descend load) (insets : List (Inset Operand)) :
    ∀ (trail later : Trail) (canvas : Image), (insets.map (·.source)).foldlM (heed code descend) trail = .ok later →
      Sound code active trail later (placeInsets load canvas insets) := by
  induction insets with
  | nil =>
    intro trail later canvas walked
    cases walked
    exact sound_pure canvas
  | cons inset rest ih =>
    intro trail later canvas walked
    rw [List.map_cons, List.foldlM_cons] at walked
    obtain ⟨middle, followed, walked⟩ := exists_of_bind_eq_ok walked
    rw [placeInsets, List.foldlM_cons]
    have first := (loads inset.source trail middle followed).bind fun img =>
      sound_pure (canvas.overlayAt img inset.x.toNat inset.y.toNat)
    exact first.bind fun laid => ih middle later laid walked

/-- An instruction is sound where the walk can follow its operands. -/
theorem sound_step (loads : SoundLoads code active descend load) (position : Nat) (i : Instr Operand)
    (current : Option Image) {trail later : Trail} (walked : i.sources.foldlM (heed code descend) trail = .ok later) :
    Sound code active trail later (step load seconds position i current) := by
  have loadsOnly : ∀ operand, i.sources = [operand] → Sound code active trail later (load operand) := by
    intro operand only
    rw [only, List.foldlM_cons] at walked
    obtain ⟨middle, followed, ended⟩ := exists_of_bind_eq_ok walked
    cases ended
    exact loads operand trail later followed
  have stays : i.sources = [] → trail = later := by
    intro none
    rw [none] at walked
    cases walked
    rfl
  cases i with
  | texture s => exact loadsOnly s rfl
  | fill w h c =>
    rw [← stays rfl]
    exact (sound_checkNonempty _ _ _ _).bind fun _ => (sound_checkSize _ _).bind fun _ => sound_pure _
  | sheet s p => exact (loadsOnly s rfl).bind fun sheet => (sound_checkFrames p sheet).bind fun _ => sound_pure _
  | resize w h =>
    rw [← stays rfl]
    exact (sound_needBase _ _ _).bind fun img => (sound_checkNonempty _ _ _ _).bind fun _ =>
      (sound_checkSize _ _).bind fun _ => sound_pure _
  | animate p =>
    rw [← stays rfl]
    exact (sound_needBase _ _ _).bind fun sheet => (sound_checkFrames p sheet).bind fun _ => sound_pure _
  | overlay s =>
    refine (loadsOnly s rfl).bind fun top => ?_
    cases current with
    | none => exact sound_pure top
    | some img => exact sound_pure _
  | mask s | lowPart p s =>
    exact (sound_needBase _ _ _).bind fun img => (loadsOnly s rfl).bind fun _ => sound_pure _
  | combine w h insets =>
    exact (sound_checkNonempty _ _ _ _).bind fun _ => (sound_checkSize _ _).bind fun _ =>
      sound_placeInsets loads insets trail later _ walked
  | _ =>
    rw [← stays rfl]
    exact (sound_needBase _ _ _).bind fun img => sound_pure _

theorem sound_instrs (loads : SoundLoads code active descend load) (instrs : List Located) :
    ∀ (trail later : Trail) (current : Option Image),
      instrs.foldlM (fun trail located => (located.instr.sources.filterMap Operand.block?).foldlM
        (follow true code descend) { trail with met := trail.met.push located.instr }) trail = .ok later →
      Sound code active trail later (instrs.foldlM (fun current located => do
        pure (some (← step load seconds located.position located.instr current))) current) := by
  induction instrs with
  | nil =>
    intro trail later current walked
    cases walked
    exact sound_pure current
  | cons located rest ih =>
    intro trail later current walked
    rw [List.foldlM_cons] at walked
    obtain ⟨middle, met, walked⟩ := exists_of_bind_eq_ok walked
    rw [foldlM_follow] at met
    rw [List.foldlM_cons]
    have stepped : Sound code active (trail.record located.instr) middle
        (step load seconds located.position located.instr current) :=
      sound_step loads located.position located.instr current met
    exact (stepped.bind fun img => sound_pure (some img)).bind fun current => ih middle later current walked

/-- A block is sound where the walk can decode it and follow its operands. -/
theorem sound_runBlock (loads : SoundLoads code active descend load) {block : Block} {trail later : Trail}
    (walked : walkBlock true code descend block trail = .ok later) :
    Sound code active trail later (runBlock load seconds block) := by
  obtain ⟨reached, met, ended⟩ := exists_of_bind_eq_ok walked
  refine (sound_instrs loads block.instrs trail reached none met).bind fun current => ?_
  cases finish : block.finish with
  | error e => simp [finish] at ended
  | ok position =>
    rw [finish] at ended
    cases ended
    cases current with
    | none => exact sound_throw not_false
    | some img => exact sound_pure img

end

variable {code : Array UInt8} {active : List (Nat × Nat)}

theorem sound_loadTexture (provider : Provider) (id : Nat) (trail : Trail) :
    Sound code active trail trail (loadTexture provider id) := by
  intro memory entered
  rw [run_loadTexture]
  cases memory.textures.lookup id with
  | some img => exact entered
  | none =>
    cases provider.image? id with
    | none => exact not_false
    | some img => exact ⟨entered.entered, entered.inside⟩

namespace Memory.Matches

variable {memory : Memory} {entered : List (Nat × Nat)} {range : Nat × Nat}

theorem enter (matched : memory.Matches code active entered)
    (inside : ¬(range.2 = 0 ∨ code.size < range.1 + range.2)) :
    memory.Matches code (range :: active) (range :: entered) where
  entered := by
    intro other
    simp only [List.mem_cons, matched.entered other]
    exact or_left_comm
  inside := by
    intro other member
    rcases List.mem_cons.mp member with rfl | under
    · exact inside
    · exact matched.inside other under

theorem finish (matched : memory.Matches code (range :: active) entered) (img : Image) :
    ({ memory with blocks := (range, img) :: memory.blocks } : Memory).Matches code active entered where
  entered := by
    intro other
    rw [matched.entered other, isSome_lookup_cons, List.mem_cons, or_assoc]
    exact or_left_comm
  inside := fun other under => matched.inside other (List.mem_cons_of_mem range under)

end Memory.Matches

/-- A block is run only where the walk enters it, which checks its range then. -/
theorem sound_loadBlock {descend : Nat × Nat → Trail → Except Malformed Trail} {run : Machine Image}
    {range : Nat × Nat} {trail later : Trail} (walked : follow true code descend trail range = .ok later)
    (inner : descend range trail = .ok later →
      Sound code (range :: active) { trail with entered := range :: trail.entered } later run) :
    Sound code active trail later (loadBlock code run active range) := by
  intro memory matched
  rw [run_loadBlock]
  unfold follow at walked
  by_cases before : range ∈ trail.entered
  · rw [if_pos (List.contains_iff_mem.mpr before)] at walked
    cases walked
    cases known : memory.blocks.lookup range with
    | some img => exact matched
    | none =>
      have under : range ∈ active := by
        rcases (matched.entered range).mp before with finished | under
        · simp [known] at finished
        · exact under
      simp only [if_neg (matched.inside range under), if_pos (List.contains_iff_mem.mpr under)]
      exact not_false
  · rw [if_neg (mt List.contains_iff_mem.mp before)] at walked
    have unknown : memory.blocks.lookup range = none := by
      rw [← Option.not_isSome_iff_eq_none]
      exact fun finished => before ((matched.entered range).mpr (.inl finished))
    have idle : range ∉ active := fun under => before ((matched.entered range).mpr (.inr under))
    by_cases outside : range.2 = 0 ∨ code.size < range.1 + range.2
    · simp [if_pos outside] at walked
    · rw [if_neg outside] at walked
      simp only [unknown, if_neg outside, if_neg (mt List.contains_iff_mem.mp idle)]
      have outcome := inner walked memory (matched.enter outside)
      generalize run.run.run memory = whole at outcome
      rcases whole with ⟨e | img, after⟩
      · exact outcome
      · exact outcome.finish img

theorem soundLoads_loadWith (provider : Provider)
    {descend : Nat × Nat → Trail → Except Malformed Trail} {run : Nat × Nat → Machine Image}
    (inner : ∀ range trail later, descend range trail = .ok later →
      Sound code (range :: active) { trail with entered := range :: trail.entered } later (run range)) :
    SoundLoads code active descend (loadWith code provider run active) := by
  intro operand trail later walked
  unfold heed at walked
  unfold loadWith
  cases origin : operand.origin with
  | texture id =>
    simp only [Operand.block?, origin, Except.ok.injEq] at walked
    rw [← walked]
    exact sound_loadTexture provider id trail
  | block offset length =>
    simp only [Operand.block?, origin] at walked
    exact sound_loadBlock walked (inner _ trail later)

/-- What a walk accepts at some depth is sound to run there. -/
theorem sound_of_walk (provider : Provider) (seconds : Float) (room : Nat) (active : List (Nat × Nat))
    {block : Block} {trail later : Trail} (walked : walk true code room block trail = .ok later) :
    Sound code active trail later (runBlock (load code provider seconds room active) seconds block) := by
  -- On the levels left, which the walk and the run count alike.
  induction room generalizing active block trail later with
  | zero =>
    rw [load_zero]
    exact sound_runBlock (soundLoads_loadWith provider fun _ _ _ deep => by cases deep) walked
  | succ room ih =>
    rw [load_succ]
    exact sound_runBlock (soundLoads_loadWith provider fun range _ _ deep => ih (range :: active) deep) walked

end Bake

/-- A program that a walk accepts never fails to bake for its shape. -/
theorem not_structural_of_walk {code : Array UInt8} {trail : Trail}
    (walked : Bytecode.Reach.walkProgram true code = .ok trail) {provider : Provider} {seconds : Float} {e : BakeError}
    (failed : (bake code provider seconds).1 = .error e) : ¬e.Structural := by
  have start : ({} : Bake.Memory).Matches code [] [] := ⟨by simp, by simp⟩
  have outcome := Bake.sound_of_walk provider seconds _ [] walked {} start
  rw [bake] at failed
  generalize StateT.run (ExceptT.run (Bake.runBlock _ _ _)) _ = whole at outcome failed
  rcases whole with ⟨reason | img, after⟩
  · cases failed
    exact outcome
  · cases failed

namespace Program

variable {code : Array UInt8} {program : Program}

/-- The bytes that are accepted as a program. -/
theorem ofBytes_eq_ok_iff : ofBytes code = .ok program ↔ 0 < code.size ∧
    code.size ≤ Bytecode.sizeLimit ∧ (∃ sites, Bytecode.textureSites code = .ok sites) ∧ program = ⟨code, [], true⟩ := by
  simp only [ofBytes, Array.isEmpty_iff_size_eq_zero]
  constructor
  · intro accepted
    split at accepted
    · cases accepted
    · next nonempty =>
      split at accepted
      · cases accepted
      · next short =>
        split at accepted
        · cases accepted
        · next sites found =>
          cases accepted
          exact ⟨Nat.pos_of_ne_zero nonempty, Nat.not_lt.mp short, ⟨sites, found⟩, rfl⟩
  · rintro ⟨nonempty, short, ⟨sites, found⟩, rfl⟩
    rw [if_neg (Nat.ne_of_gt nonempty), if_neg (Nat.not_lt.mpr short), found]

theorem ofBytes_eq_ok (accepted : ofBytes code = .ok program) :
    program = ⟨code, [], true⟩ ∧ ∃ trail, Bytecode.Reach.walkProgram true code = .ok trail := by
  obtain ⟨-, -, ⟨sites, found⟩, isProgram⟩ := ofBytes_eq_ok_iff.mp accepted
  obtain ⟨trail, walked, -⟩ := exists_of_bind_eq_ok found
  exact ⟨isProgram, trail, walked⟩

/-- Bytes that are accepted as a program can be baked at once, and never fail to for their shape. -/
theorem not_structural_of_ofBytes (accepted : ofBytes code = .ok program) :
    program.code = code ∧ program.ensureLinked = .ok () ∧ ∀ (provider : Provider) (seconds : Float) (e : BakeError),
      (bake program.code provider seconds).1 = .error e → ¬e.Structural := by
  obtain ⟨rfl, trail, walked⟩ := ofBytes_eq_ok accepted
  exact ⟨rfl, rfl, fun provider seconds e failed => not_structural_of_walk walked failed⟩

/-- A program that shows itself. -/
def selfShowing : Array UInt8 := #[1, 1, 0, 0, 0, 9, 0, 0, 0]

/-- It is accepted, since each of its blocks can be decoded, and its bake fails for another reason. -/
theorem not_structural_selfShowing :
    ofBytes selfShowing = .ok ⟨selfShowing, [], true⟩ ∧
      (bake selfShowing (fun _ => none) 0).1 = .error (.recursiveBlock 0 9) ∧
      ¬(BakeError.recursiveBlock 0 9).Structural := by
  have accepted : ofBytes selfShowing = .ok ⟨selfShowing, [], true⟩ := by rfl
  have failed : (bake selfShowing (fun _ => none) 0).1 = .error (.recursiveBlock 0 9) := by rfl
  obtain ⟨_, _, sound⟩ := not_structural_of_ofBytes accepted
  exact ⟨accepted, failed, sound (fun _ => none) 0 _ failed⟩

end Program

end TextureLoom
