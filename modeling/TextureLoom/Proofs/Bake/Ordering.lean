import TextureLoom.Program
import TextureLoom.Proofs.Bake.Dependence
import TextureLoom.Proofs.Bytecode.Touring

set_option autoImplicit false

namespace TextureLoom

namespace Bake

open Bytecode (AnimParams Block Inset Instr Located Operand Tour depthLimit)
open Bytecode.Reach (attend tour tourBlock toured use)

/-- From every memory where `before` holds, the run comes to one where `after` holds, unless it fails. -/
def Ends {α : Type} (before after : Memory → Prop) (run : Machine α) : Prop :=
  ∀ memory later a, before memory → run.run.run memory = (.ok a, later) → after later

section

variable {α β : Type} {before between after : Memory → Prop}

theorem ends_pure (a : α) : Ends before before (pure a) := by
  intro memory later b holds ran
  cases ran
  exact holds

theorem ends_throw (e : BakeError) : Ends before after (throw e : Machine α) := by
  intro memory later a _ ran
  cases ran

theorem Ends.bind {run : Machine α} {next : α → Machine β} (former : Ends before between run)
    (latter : ∀ a, Ends between after (next a)) : Ends before after (run >>= next) := by
  intro memory later b holds ran
  rw [run_bind] at ran
  cases first : run.run.run memory with
  | mk result middle =>
    rw [first] at ran
    cases result with
    | error e => cases ran
    | ok a => exact latter a middle later b (former memory middle a holds first) ran

theorem ends_checkSize (width height : Nat) : Ends before before (checkSize width height) := by
  unfold checkSize
  split
  · exact ends_throw _
  · exact ends_pure _

theorem ends_checkNonempty (what : String) (width height position : Nat) :
    Ends before before (checkNonempty what width height position) := by
  unfold checkNonempty
  split
  · exact ends_throw _
  · exact ends_pure _

theorem ends_checkFrames (params : AnimParams) (sheet : Image) : Ends before before (checkFrames params sheet) :=
  ends_checkSize _ _

theorem ends_needBase (i : Instr Operand) (position : Nat) (current : Option Image) :
    Ends before before (needBase i position current) := by
  cases current with
  | none => exact ends_throw _
  | some img => exact ends_pure img

end

section

variable {σ : Type} {At : σ → Memory → Prop} {follow : σ → Operand → σ} {load : Operand → Machine Image}
  {seconds : Float}

theorem ends_placeInsets (loads : ∀ operand s, Ends (At s) (At (follow s operand)) (load operand))
    (insets : List (Inset Operand)) : ∀ (s : σ) (canvas : Image),
      Ends (At s) (At ((insets.map (·.source)).foldl follow s)) (placeInsets load canvas insets) := by
  induction insets with
  | nil => exact fun s canvas => ends_pure canvas
  | cons inset rest ih =>
    intro s canvas
    rw [placeInsets, List.foldlM_cons, List.map_cons, List.foldl_cons]
    have first := (loads inset.source s).bind fun img =>
      ends_pure (canvas.overlayAt img inset.x.toNat inset.y.toNat)
    exact first.bind fun laid => ih _ laid

/-- An instruction loads each of its operands once, in order. -/
theorem ends_step (loads : ∀ operand s, Ends (At s) (At (follow s operand)) (load operand)) (position : Nat)
    (i : Instr Operand) (current : Option Image) (s : σ) :
    Ends (At s) (At (i.sources.foldl follow s)) (step load seconds position i current) := by
  cases i with
  | texture source => exact loads source s
  | fill w h c =>
    exact (ends_checkNonempty _ _ _ _).bind fun _ => (ends_checkSize _ _).bind fun _ => ends_pure _
  | sheet source p => exact (loads source s).bind fun sheet => (ends_checkFrames p sheet).bind fun _ => ends_pure _
  | resize w h =>
    exact (ends_needBase _ _ _).bind fun img => (ends_checkNonempty _ _ _ _).bind fun _ =>
      (ends_checkSize _ _).bind fun _ => ends_pure _
  | animate p =>
    exact (ends_needBase _ _ _).bind fun sheet => (ends_checkFrames p sheet).bind fun _ => ends_pure _
  | overlay source =>
    refine (loads source s).bind fun top => ?_
    cases current with
    | none => exact ends_pure top
    | some img => exact ends_pure _
  | mask source | lowPart p source =>
    exact (ends_needBase _ _ _).bind fun img => (loads source s).bind fun _ => ends_pure _
  | combine w h insets =>
    exact (ends_checkNonempty _ _ _ _).bind fun _ => (ends_checkSize _ _).bind fun _ =>
      ends_placeInsets loads insets s _
  | _ => exact (ends_needBase _ _ _).bind fun img => ends_pure _

end

/-- A memory is where a tour is: the blocks entered are those finished and those under way, and each texture used is
loaded and was asked for when it was used first. -/
structure Memory.On (memory : Memory) (active : List (Nat × Nat)) (tour : Tour) : Prop where
  entered : ∀ range, range ∈ tour.trail.entered ↔ (memory.blocks.lookup range).isSome ∨ range ∈ active
  loaded : ∀ id, (memory.textures.lookup id).isSome ↔ id ∈ tour.used
  asked : memory.asked.toList = tour.used.eraseDups

namespace Memory.On

variable {memory : Memory} {active : List (Nat × Nat)} {tour : Tour} {range : Nat × Nat}

theorem enter (on : memory.On active tour) (range : Nat × Nat) : memory.On (range :: active) (tour.enter range) where
  entered := by
    intro other
    show other ∈ range :: tour.trail.entered ↔ _
    rw [List.mem_cons, List.mem_cons, on.entered other]
    exact or_left_comm
  loaded := on.loaded
  asked := on.asked

theorem finish (on : memory.On (range :: active) tour) (img : Image) :
    ({ memory with blocks := (range, img) :: memory.blocks } : Memory).On active tour where
  entered := by
    intro other
    rw [on.entered other, isSome_lookup_cons, List.mem_cons, or_assoc]
    exact or_left_comm
  loaded := on.loaded
  asked := on.asked

end Memory.On

/-- A run that makes an image takes a tour from one point to another. -/
def Takes {α : Type} (active : List (Nat × Nat)) (start finish : Tour) (run : Machine α) : Prop :=
  Ends (Memory.On · active start) (Memory.On · active finish) run

section

variable {code : Array UInt8} {active : List (Nat × Nat)} {descend : Nat × Nat → Tour → Tour}
  {load : Operand → Machine Image} {seconds : Float}

theorem takes_instrs (loads : ∀ operand start, Takes active start (use code descend start operand) (load operand))
    (instrs : List Located) : ∀ (start : Tour) (current : Option Image),
      Takes active start (instrs.foldl (fun tour located => attend code descend tour located.instr) start)
        (instrs.foldlM (fun current located => do
          pure (some (← step load seconds located.position located.instr current))) current) := by
  induction instrs with
  | nil => exact fun start current => ends_pure current
  | cons located rest ih =>
    intro start current
    rw [List.foldlM_cons, List.foldl_cons]
    -- Neither to meet an instruction nor to note the stop changes what the memory is compared with.
    have stepped : Takes active start (attend code descend start located.instr)
        (step load seconds located.position located.instr current) := by
      intro memory later img on ran
      have noted := ends_step loads located.position located.instr current _ memory later img
        (⟨on.entered, on.loaded, on.asked⟩ : memory.On active { start with trail := start.trail.record located.instr })
        ran
      exact ⟨noted.entered, noted.loaded, noted.asked⟩
    exact (stepped.bind fun img => ends_pure (some img)).bind fun current => ih _ current

/-- A block takes its tour. -/
theorem takes_runBlock (loads : ∀ operand start, Takes active start (use code descend start operand) (load operand))
    (block : Block) (start : Tour) :
    Takes active start (tourBlock code descend block start) (runBlock load seconds block) := by
  refine (takes_instrs loads block.instrs start none).bind fun current => ?_
  cases block.finish with
  | error e => exact ends_throw _
  | ok position =>
    cases current with
    | none => exact ends_throw _
    | some img => exact ends_pure img

/-- A texture is asked for when it is used first. -/
theorem takes_loadTexture (provider : Provider) (id : Nat) (start : Tour) :
    Takes active start { start with used := start.used ++ [id] } (loadTexture provider id) := by
  intro memory later img on ran
  rw [run_loadTexture] at ran
  cases known : memory.textures.lookup id with
  | some found =>
    rw [known] at ran
    cases ran
    have usedBefore : id ∈ start.used := (on.loaded id).mp (by rw [known, Option.isSome_some])
    refine ⟨on.entered, fun other => ?_, ?_⟩
    · rw [on.loaded other, List.mem_append, List.mem_singleton]
      exact ⟨.inl, fun used => used.elim (·) fun same => same ▸ usedBefore⟩
    · rw [on.asked, eraseDups_concat, if_pos (List.contains_iff_mem.mpr usedBefore)]
  | none =>
    have unused : id ∉ start.used := fun used => by simpa [known] using (on.loaded id).mpr used
    cases image : provider.image? id with
    | none =>
      simp only [known, image] at ran
      cases ran
    | some found =>
      simp only [known, image] at ran
      cases ran
      refine ⟨on.entered, fun other => ?_, ?_⟩
      · rw [isSome_lookup_cons, List.mem_append, List.mem_singleton, ← on.loaded other]
        exact or_comm
      · rw [Array.toList_push, on.asked, eraseDups_concat, if_neg (mt List.contains_iff_mem.mp unused)]

/-- A block is run when it is loaded first, which is when the tour enters it. -/
theorem takes_loadBlock {run : Machine Image} {offset length : Nat} {operand : Operand}
    (names : operand.origin = .block offset length) (start : Tour)
    (inner : Takes ((offset, length) :: active) (start.enter (offset, length)) (descend (offset, length) start) run) :
    Takes active start (use code descend start operand) (loadBlock code run active (offset, length)) := by
  intro memory later img on ran
  rw [run_loadBlock] at ran
  simp only [use, names]
  by_cases entered : (offset, length) ∈ start.trail.entered
  · rw [if_pos (List.contains_iff_mem.mpr entered)]
    cases known : memory.blocks.lookup (offset, length) with
    | some found =>
      rw [known] at ran
      cases ran
      exact on
    | none =>
      -- It is under way still, so that the run fails.
      have under : (offset, length) ∈ active := by
        have finished := (on.entered _).mp entered
        simpa [known] using finished
      simp only [known, if_pos (List.contains_iff_mem.mpr under)] at ran
      split at ran <;> cases ran
  · have unknown : memory.blocks.lookup (offset, length) = none := by
      rw [← Option.not_isSome_iff_eq_none]
      exact fun finished => entered ((on.entered _).mpr (.inl finished))
    have idle : (offset, length) ∉ active := fun under => entered ((on.entered _).mpr (.inr under))
    simp only [unknown, if_neg (mt List.contains_iff_mem.mp idle)] at ran
    rw [if_neg (mt List.contains_iff_mem.mp entered)]
    by_cases outside : length = 0 ∨ code.size < offset + length
    · rw [if_pos outside] at ran
      cases ran
    · rw [if_neg outside] at ran ⊢
      cases made : run.run.run memory with
      | mk result after =>
        rw [made] at ran
        cases result with
        | error e => cases ran
        | ok found =>
          cases ran
          exact (inner memory after img (on.enter _) made).finish img

theorem takes_loadWith (provider : Provider) {run : Nat × Nat → Machine Image}
    (inner : ∀ range start, Takes (range :: active) (start.enter range) (descend range start) (run range))
    (operand : Operand) (start : Tour) :
    Takes active start (use code descend start operand) (loadWith code provider run active operand) := by
  unfold loadWith
  cases origin : operand.origin with
  | texture id =>
    simp only [use, origin]
    exact takes_loadTexture provider id start
  | block offset length => exact takes_loadBlock origin start (inner _ start)

theorem takes_load (provider : Provider) (room : Nat) (active : List (Nat × Nat)) (operand : Operand) (start : Tour) :
    Takes active start (use code (tour code room) start operand)
      (Bake.load code provider seconds room active operand) := by
  -- On the levels left: what a block names is loaded with one less, and with the block itself under way.
  induction room generalizing active operand start with
  | zero =>
    rw [load_zero]
    exact takes_loadWith provider (fun _ _ => ends_throw _) operand start
  | succ room ih =>
    have runs : ∀ range start, Takes (range :: active) (start.enter range) (tour code (room + 1) range start)
        (runBlock (Bake.load code provider seconds room (range :: active)) seconds
          (Block.of code range.1 (range.1 + range.2))) :=
      fun range start => takes_runBlock (ih (range :: active)) _ (start.enter range)
    rw [load_succ]
    exact takes_loadWith provider runs operand start

end

end Bake

open Bytecode (dependencies dependencies_eq_used_iff)
open Bytecode.Reach (toured)

/-- A bake that makes an image has asked for each texture where the tour of the program uses it first. -/
theorem asked_of_bake {code : Array UInt8} {provider : Provider} {seconds : Float} {img : Image}
    (made : (bake code provider seconds).1 = .ok img) :
    (bake code provider seconds).2 = (toured code).used.eraseDups := by
  have start : ({} : Bake.Memory).On [] {} := ⟨by simp, by simp, rfl⟩
  have takes : Bake.Takes [] {} (toured code) (Bake.runBlock
      (Bake.load code provider seconds Bytecode.depthLimit []) seconds (Bytecode.Block.of code 0 code.size)) :=
    Bake.takes_runBlock (Bake.takes_load provider Bytecode.depthLimit []) _ {}
  have ends := takes {}
  rw [bake] at made ⊢
  generalize StateT.run (ExceptT.run (Bake.runBlock _ _ _)) _ = whole at ends made ⊢
  cases whole with
  | mk result memory =>
    have made : result = .ok img := made
    exact (ends memory img start (by rw [made])).asked

/-- A bake that makes an image asks for the textures as the tour uses them. They are listed as dependencies in this
order just if every stop of the tour is prompt, and the first of them is the first dependency just if every stop
leads. -/
theorem asked_eq_dependencies_iff {code : Array UInt8} {provider : Provider} {seconds : Float} {img : Image}
    (made : (bake code provider seconds).1 = .ok img) :
    (bake code provider seconds).2 = (toured code).used.eraseDups ∧
      ((bake code provider seconds).2 = dependencies code ↔ ∀ stop ∈ (toured code).stops, stop.Prompt) ∧
      ((bake code provider seconds).2.head? = (dependencies code).head? ↔
        ∀ stop ∈ (toured code).stops, stop.Leading) := by
  have asked := asked_of_bake made
  rw [asked]
  exact ⟨rfl, dependencies_eq_used_iff code⟩

/-- Texture 1, and then a canvas with a block on it that shows texture 1 too, and beside it texture 2. -/
def shownBefore : Array UInt8 :=
  #[1, 0, 1, 0, 0, 40, 2, 0, 1, 0, 2, 0, 0, 0, 0, 0, 1, 32, 0, 0, 6, 0, 0, 1, 0, 0, 0, 0, 2, 0, 0, 0, 1, 0, 1, 0, 0, 0]

theorem asked_shownBefore :
    (bake shownBefore allDots 0).1 = .ok ⟨2, 1, #[0xff0000ff, 0xff0000ff]⟩ ∧
      (bake shownBefore allDots 0).2 = dependencies shownBefore ∧ dependencies shownBefore = [1, 2] := by
  have made : (bake shownBefore allDots 0).1 = .ok ⟨2, 1, #[0xff0000ff, 0xff0000ff]⟩ := by rfl
  obtain ⟨-, ordered, -⟩ := asked_eq_dependencies_iff made
  have prompt : ∀ stop ∈ (toured shownBefore).stops, stop.Prompt := by decide +kernel
  exact ⟨made, ordered.mpr prompt, by decide +kernel⟩

/-- A canvas with a block on it that shows texture 1, and beside it texture 2. -/
def besideNested : Array UInt8 :=
  #[40, 2, 0, 1, 0, 2, 0, 0, 0, 0, 0, 1, 27, 0, 0, 6, 0, 0, 1, 0, 0, 0, 0, 2, 0, 0, 0, 1, 0, 1, 0, 0, 0]

/-- Texture 1 is asked for first, but listed behind texture 2, which the canvas names itself. -/
theorem asked_ne_dependencies_besideNested :
    Program.ofBytes besideNested = .ok ⟨besideNested, [], true⟩ ∧
      (bake besideNested allDots 0).1 = .ok ⟨2, 1, #[0xff0000ff, 0xff0000ff]⟩ ∧
      (bake besideNested allDots 0).2 = [1, 2] ∧ dependencies besideNested = [2, 1] ∧
      (bake besideNested allDots 0).2 ≠ dependencies besideNested ∧
      (bake besideNested allDots 0).2.head? ≠ (dependencies besideNested).head? := by
  have asked : (bake besideNested allDots 0).2 = [1, 2] := by rfl
  have listed : dependencies besideNested = [2, 1] := by decide +kernel
  rw [asked, listed]
  exact ⟨by rfl, by rfl, rfl, rfl, by decide, by decide⟩

end TextureLoom
