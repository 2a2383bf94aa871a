import TextureLoom.Proofs.Bake.Simulation
import TextureLoom.Proofs.Compile.Linking

set_option autoImplicit false

namespace TextureLoom.Compile

open Bake (Gives Memory gives_get gives_modify gives_pure gives_throw)
open Bytecode (Block Instr Operand Origin locate)
open Pipeline (Setting)

/-- What a run remembers is what direct evaluation gives: textures by id, and nested pipelines by the ranges of their
blocks. -/
structure Remembers (s : Setting) (d : Draft) (jobs : List Job) (memory : Memory) : Prop where
  textures : ∀ id img, memory.textures.lookup id = some img → (s.provider id).bind TextureView.image? = some img
  blocks : ∀ (index : Nat) (job : Job) (range : Nat × Nat) (img : Image), jobs[index]? = some job →
    (ranges d.blocks)[index]? = some range →
    memory.blocks.lookup range = some img → job.pipeline.evaluate s = .ok img

theorem remembers_empty (s : Setting) (d : Draft) (jobs : List Job) : Remembers s d jobs {} :=
  ⟨by simp, by simp⟩

variable {s : Setting} {d : Draft} {jobs : List Job} {p : Pipeline} {code : Array UInt8}

theorem gives_loadTexture (name : String) :
    Gives (Remembers s d jobs) (Bake.loadTexture s.provider (s.ids name)) (s.named name) := by
  apply gives_get
  intro memory holds
  split
  · rename_i img cached
    rw [Setting.named, holds.textures _ _ cached]
    exact gives_pure img
  · refine gives_modify (fun memory holds => ⟨holds.textures, holds.blocks⟩) ?_
    rw [Setting.named]
    rcases viewed : (s.provider (s.ids name)).bind TextureView.image? with _ | img
    · exact gives_throw _
    · refine gives_modify (fun memory holds => ⟨?_, holds.blocks⟩) (gives_pure img)
      intro id other found
      rw [List.lookup_cons] at found
      split at found
      · rename_i same
        cases found
        rw [eq_of_beq same, viewed]
      · exact holds.textures id other found

theorem blockStart_inj {blocks : List (List (Instr Ref))} {first second : Nat} (firstBound : first ≤ blocks.length)
    (secondBound : second ≤ blocks.length) (same : blockStart blocks first = blockStart blocks second) :
    first = second := by
  rcases Nat.lt_trichotomy first second with less | equal | greater
  · have := blockStart_lt less secondBound
    omega
  · exact equal
  · have := blockStart_lt greater firstBound
    omega

/-- Remembering what a nested pipeline gave. -/
theorem Remembers.add {memory : Memory} (holds : Remembers s d jobs memory) {index : Nat} {job : Job}
    {block : List (Instr Ref)} {img : Image} (isJob : jobs[index]? = some job)
    (found : d.blocks[index]? = some block) (evaluates : job.pipeline.evaluate s = .ok img) :
    Remembers s d jobs { memory with
      blocks := ((blockStart d.blocks.toList index, blockLength block), img) :: memory.blocks } where
  textures := holds.textures
  blocks := by
    intro other otherJob range shown isOther ranged cached
    rw [List.lookup_cons] at cached
    split at cached
    · rename_i same
      cases cached
      rw [ranges_getElem?] at ranged
      obtain ⟨otherBlock, otherFound, rfl⟩ := Option.map_eq_some_iff.mp ranged
      have starts : blockStart d.blocks.toList other = blockStart d.blocks.toList index :=
        congrArg Prod.fst (eq_of_beq same)
      have equal := blockStart_inj (Nat.le_of_lt (by simpa using (Array.getElem?_eq_some_iff.mp otherFound).1))
        (Nat.le_of_lt (by simpa using (Array.getElem?_eq_some_iff.mp found).1)) starts
      rw [equal, isJob] at isOther
      cases isOther
      exact evaluates
    · exact holds.blocks other otherJob range shown isOther ranged cached

theorem gives_loadBlock {run : Bake.Machine Image} {active : List (Nat × Nat)} {index : Nat} {job : Job}
    {block : List (Instr Ref)} (isJob : jobs[index]? = some job) (found : d.blocks[index]? = some block)
    (within : blockStart d.blocks.toList index + blockLength block ≤ code.size)
    (fresh : ∀ range ∈ active, range.1 < blockStart d.blocks.toList index)
    (gives : Gives (Remembers s d jobs) run (job.pipeline.evaluate s)) :
    Gives (Remembers s d jobs) (Bake.loadBlock code run active (blockStart d.blocks.toList index, blockLength block))
      (job.pipeline.evaluate s) := by
  apply gives_get
  intro memory holds
  split
  · rename_i img cached
    have ranged : (ranges d.blocks)[index]? = some (blockStart d.blocks.toList index, blockLength block) := by
      rw [ranges_getElem?, found]
      rfl
    rw [holds.blocks index job _ img isJob ranged cached]
    exact gives_pure img
  · have inside : ¬(blockLength block = 0 ∨ code.size < blockStart d.blocks.toList index + blockLength block) := by
      have some := blockLength_pos block
      omega
    have inactive : ¬active.contains (blockStart d.blocks.toList index, blockLength block) = true := by
      intro contained
      exact Nat.lt_irrefl _ (fresh _ (List.contains_iff_mem.mp contained))
    rw [if_neg inside, if_neg inactive, ← bind_pure (job.pipeline.evaluate s)]
    apply gives.bind
    intro img evaluates
    exact gives_modify (fun memory holds => holds.add isJob found evaluates) (gives_pure img)

section

variable {inv : Memory → Prop} {load : Operand → Bake.Machine Image} {table : Array (Nat × Nat)} {ids : String → Nat}

/-- The operands of some instructions load what their pieces evaluate to. -/
def Loads (inv : Memory → Prop) (load : Operand → Bake.Machine Image) (s : Setting) (table : Array (Nat × Nat))
    (jobs : List Job) (block : List (Instr Ref)) : Prop :=
  ∀ i ∈ block, ∀ source ∈ i.sources, ∀ start,
    Gives inv (load (Operand.at start (Ref.linked table s.ids source))) ((Ref.piece jobs source).evaluate s)

theorem gives_located {i : Instr Ref} (position start : Nat) (current : Option Image)
    (loads : Loads inv load s table jobs [i]) :
    Gives inv (Bake.step load s.seconds position
        ((i.map (Ref.linked table s.ids)).place Origin.size Operand.at start) current)
      (Bake.step (Piece.evaluate s) s.seconds position (i.map (Ref.piece jobs)) current) := by
  rw [Instr.place_map]
  exact (Bake.lockstep_gives inv).step s.seconds position i current start (loads i (by simp))

theorem gives_stages {room : Nat} (calls : List Call) :
    ∀ {block : List (Instr Ref)} {start : Nat} {img : Image},
      calls.mapM (stageInstr room) = .ok (block.map (·.map (Ref.piece jobs))) → Loads inv load s table jobs block →
        Gives inv ((locate start (block.map (·.map (Ref.linked table s.ids)))).foldlM (fun current located => do
            pure (some (← Bake.step load s.seconds located.position located.instr current))) (some img))
          (do pure (some (← Pipeline.evaluateStages s calls img))) := by
  induction calls with
  | nil =>
    intro block start img read loads
    rw [List.mapM_nil] at read
    cases List.map_eq_nil_iff.mp (Except.ok.inj read).symm
    exact gives_pure (some img)
  | cons call rest ih =>
    intro block start img read loads
    obtain ⟨instr, others, isStage, areStages, split⟩ := mapM_cons_eq_ok read
    obtain ⟨i, block, rfl, rfl, rfl⟩ := List.map_eq_cons_iff.mp split
    have first : Loads inv load s table jobs [i] := fun j member => loads j (by simp_all)
    obtain ⟨name, args, offset⟩ := call
    rw [List.map_cons, locate, List.foldlM_cons, Pipeline.evaluateStages, bind_assoc, bind_assoc]
    have step := gives_located start start (some img) first
    rw [step_of_stageInstr isStage] at step
    apply step.bind
    intro next _
    rw [pure_bind]
    exact ih areStages fun j member => loads j (by simp [member])

/-- Running the block of a pipeline gives what the pipeline evaluates to. -/
theorem gives_runBlock {room start finish : Nat} {block : List (Instr Ref)}
    (read : IsReadAs room p (block.map (·.map (Ref.piece jobs)))) (loads : Loads inv load s table jobs block) :
    Gives inv (Bake.runBlock load s.seconds
        ⟨locate start (block.map (·.map (Ref.linked table s.ids))), .ok finish⟩) (p.evaluate s) := by
  obtain ⟨first, rest, isBase, areStages, split⟩ := read
  obtain ⟨i, block, rfl, rfl, rfl⟩ := List.map_eq_cons_iff.mp split
  have base : Loads inv load s table jobs [i] := fun j member => loads j (by simp_all)
  obtain ⟨pipelineBase, calls⟩ := p
  rw [Bake.runBlock, Pipeline.evaluate, List.map_cons, locate, List.foldlM_cons, bind_assoc, bind_assoc]
  have step := gives_located start start none base
  rw [step_of_baseInstr isBase] at step
  apply step.bind
  intro img _
  have unwrapped : Pipeline.evaluateStages s calls img =
      (do pure (some (← Pipeline.evaluateStages s calls img))) >>= fun current => pure (current.getD default) := by
    simp
  rw [pure_bind, unwrapped]
  refine (gives_stages calls areStages fun j member => loads j (by simp [member])).bind fun current given => ?_
  obtain ⟨last, _, wrapped⟩ := exists_of_bind_eq_ok given
  cases wrapped
  exact gives_pure last

end

/-- A pipeline with a number has a block. -/
theorem exists_block (isDraft : Draft.IsDraftOf d jobs p) {index : Nat} {job : Job} (isJob : jobs[index]? = some job) :
    ∃ block, d.blocks[index]? = some block ∧ d.blocks.toList[index]? = some block ∧ IsBlockOf jobs index job block := by
  have bound := (List.getElem?_eq_some_iff.mp isJob).1
  rw [isDraft.counted] at bound
  have found := Array.getElem?_eq_getElem bound
  obtain ⟨other, isBlock⟩ := isDraft.drafted index _ found
  have same := isBlock.found
  rw [isJob] at same
  cases same
  exact ⟨_, found, by rw [Array.getElem?_toList]; exact found, isBlock⟩

/-- The block of a pipeline gives what the pipeline evaluates to where the blocks nested in it do. -/
theorem gives_block (linked : IsLinked d s.ids code) (isDraft : Draft.IsDraftOf d jobs p) {room index stop : Nat}
    {active : List (Nat × Nat)} {job : Job} {block : List (Instr Ref)} (isBlock : IsBlockOf jobs index job block)
    (found : d.blocks[index]? = some block) (stops : blockStart d.blocks.toList index + blockLength block ≤ stop)
    (nested : ∀ inner nestedJob start, index < inner → jobs[inner]? = some nestedJob → nestedJob.room < job.room →
      Gives (Remembers s d jobs)
        (Bake.load code s.provider s.seconds room active
          (Operand.at start ((Ref.block inner).origin (ranges d.blocks))))
        (nestedJob.pipeline.evaluate s)) :
    Gives (Remembers s d jobs)
      (Bake.runBlock (Bake.load code s.provider s.seconds room active) s.seconds
        (Block.of code (blockStart d.blocks.toList index) stop))
      (job.pipeline.evaluate s) := by
  rw [linked.block_of isDraft found stops]
  apply gives_runBlock isBlock.instrs
  intro i member source isSource start
  cases source with
  | name text =>
    rw [Bake.load]
    exact gives_loadTexture text
  | block inner =>
    obtain ⟨later, nestedJob, isJob, less⟩ := isBlock.nested i member inner isSource
    rw [Ref.piece, isJob]
    exact nested inner nestedJob start later isJob less

/-- Loading the block of a nested pipeline gives what the pipeline evaluates to. -/
theorem gives_load (linked : IsLinked d s.ids code) (isDraft : Draft.IsDraftOf d jobs p) (room : Nat) :
    ∀ {index start : Nat} {job : Job} {active : List (Nat × Nat)}, jobs[index]? = some job → job.room < room →
      (∀ range ∈ active, range.1 < blockStart d.blocks.toList index) →
        Gives (Remembers s d jobs)
          (Bake.load code s.provider s.seconds room active
            (Operand.at start ((Ref.block index).origin (ranges d.blocks))))
          (job.pipeline.evaluate s) := by
  -- what is nested in a pipeline has less room than the pipeline itself, and its block starts later
  induction room with
  | zero =>
    intro index start job active _ enough
    omega
  | succ room ih =>
    intro index start job active isJob enough fresh
    obtain ⟨block, found, listed, isBlock⟩ := exists_block isDraft isJob
    have inside := blockStart_add_le_sum listed
    rw [← linked.size_eq] at inside
    rw [origin_block found]
    apply gives_loadBlock isJob found inside fresh
    apply gives_block linked isDraft isBlock found (Nat.le_refl _)
    intro inner nestedJob start later isNested less
    apply ih isNested (by omega)
    have bound := (List.getElem?_eq_some_iff.mp isNested).1
    rw [isDraft.counted, ← Array.length_toList] at bound
    have starts := blockStart_lt later (Nat.le_of_lt bound)
    intro range isActive
    rcases List.mem_cons.mp isActive with rfl | outer
    · exact starts
    · exact Nat.lt_trans (fresh range outer) starts

/-- Linked code bakes to what its pipeline evaluates to. -/
theorem IsLinked.bake_eq (linked : IsLinked d s.ids code) (isDraft : Draft.IsDraftOf d jobs p) :
    (bake code s.provider s.seconds).1 = p.evaluate s := by
  obtain ⟨block, found, listed, isBlock⟩ := exists_block isDraft isDraft.first
  have inside := blockStart_add_le_sum listed
  rw [← linked.size_eq] at inside
  have deep : Source.nestingLimit ≤ Bytecode.depthLimit := by decide
  have gives : Gives (Remembers s d jobs)
      (Bake.runBlock (Bake.load code s.provider s.seconds Bytecode.depthLimit []) s.seconds
        (Block.of code (blockStart d.blocks.toList 0) code.size)) (p.evaluate s) := by
    apply gives_block linked isDraft isBlock found inside
    intro inner nestedJob start later isNested less
    exact gives_load linked isDraft _ isNested (Nat.lt_of_lt_of_le less deep) (by simp)
  rw [blockStart_zero] at gives
  exact (gives {} (remembers_empty s d jobs)).1

end TextureLoom.Compile

namespace TextureLoom.Program

/-- A text is compiled to the draft of its pipeline. -/
theorem exists_draft {text : String} {program : Program} (compiled : compile text = .ok program) :
    ∃ p d jobs, Pipeline.parse? text = .ok p ∧ Compile.Draft.IsDraftOf d jobs p ∧
      program = ⟨(Compile.Compiled.ofDraft d).code, (Compile.Compiled.ofDraft d).patches.toList,
        (Compile.Compiled.ofDraft d).patches.isEmpty⟩ := by
  obtain ⟨bytes, ofText, success⟩ := exists_of_bind_eq_ok compiled
  cases success
  unfold Compile.Compiled.ofText at ofText
  split at ofText
  · cases ofText
  · rename_i p parsed
    obtain ⟨d, ofPipeline, success⟩ := exists_of_bind_eq_ok ofText
    cases success
    obtain ⟨jobs, isDraft⟩ := Compile.Draft.isDraftOf_of_ofPipeline ofPipeline
    exact ⟨p, d, jobs, parsed, isDraft, rfl⟩

/-- A compiled text, linked by a resolver that has an id for each of its names, is the linked draft of its
pipeline. -/
theorem exists_isLinked {text : String} {program : Program} {resolver : String → Option Nat}
    (compiled : compile text = .ok program)
    (resolved : ∀ patch ∈ program.patches, ∃ id, resolver patch.name = some id ∧ id < Bytecode.limit24) :
    ∃ p d jobs linked, Pipeline.parse? text = .ok p ∧ Compile.Draft.IsDraftOf d jobs p ∧
      program.link resolver = (linked, .ok ()) ∧ linked.ensureLinked = .ok () ∧
      Compile.IsLinked d (fun name => (resolver name).getD 0) linked.code := by
  obtain ⟨p, d, jobs, parsed, isDraft, rfl⟩ := exists_draft compiled
  have named : ∀ patch ∈ (Compile.Compiled.ofDraft d).patches.toList,
      resolver patch.name = some ((resolver patch.name).getD 0) ∧
        (resolver patch.name).getD 0 < Bytecode.limit24 := by
    intro patch member
    obtain ⟨id, found, small⟩ := resolved patch member
    rw [found]
    exact ⟨rfl, small⟩
  have linked := Compile.isLinked_writeFields d (fun name => (resolver name).getD 0) fun patch member =>
    (named patch member).2
  exact ⟨p, d, jobs, _, parsed, isDraft, Compile.link_eq_ok (fun name => (resolver name).getD 0) named, rfl, linked⟩

/-- A compiled text, linked by a resolver that has an id for each of its names, bakes to the image, or fails with the
error, that its pipeline evaluates to on its own, nested pipelines from scratch. -/
theorem bake_link_compile {text : String} {program : Program} {resolver : String → Option Nat} (provider : Provider)
    (seconds : Float) (compiled : compile text = .ok program)
    (resolved : ∀ patch ∈ program.patches, ∃ id, resolver patch.name = some id ∧ id < Bytecode.limit24) :
    ∃ p linked, Pipeline.parse? text = .ok p ∧ program.link resolver = (linked, .ok ()) ∧
      linked.ensureLinked = .ok () ∧
      (bake linked.code provider seconds).1 = p.evaluate ⟨fun name => (resolver name).getD 0, provider, seconds⟩ := by
  obtain ⟨p, d, jobs, linked, parsed, isDraft, links, ready, isLinked⟩ := exists_isLinked compiled resolved
  have baked := isLinked.bake_eq (s := ⟨fun name => (resolver name).getD 0, provider, seconds⟩) isDraft
  exact ⟨p, linked, parsed, links, ready, baked⟩

deriving instance DecidableEq for Except

/-- Three names, one of them in a pipeline nested twice, the innermost without its texture. -/
theorem bake_link_compile_nested :
    let text := "stone |> overlay(tex(moss |> overlay(tex(X) |> invert)) |> opacity(128))"
    let resolver := fun name : String => ["stone", "moss", "X"].idxOf? name
    let provider : Provider := fun id => if id = 2 then none else some ⟨1, 1, #[0xFF204060]⟩
    ∃ program, compile text = .ok program ∧
      (∀ patch ∈ program.patches, ∃ id, resolver patch.name = some id ∧ id < Bytecode.limit24) ∧
      ∃ p linked, Pipeline.parse? text = .ok p ∧ program.link resolver = (linked, .ok ()) ∧
        linked.ensureLinked = .ok () ∧
        (bake linked.code provider 0).1 = p.evaluate ⟨fun name => (resolver name).getD 0, provider, 0⟩ := by
  intro text resolver provider
  have compiled : compile text = .ok ⟨#[1, 0, 0, 0, 0, 30, 1, 14, 0, 0, 16, 0, 0, 0, 1, 0, 0, 0, 0, 30, 1, 30, 0, 0, 8,
      0, 0, 12, 128, 0, 1, 0, 0, 0, 0, 15, 7, 0], [⟨2, "stone"⟩, ⟨16, "moss"⟩, ⟨32, "X"⟩], false⟩ := by
    decide +kernel
  have resolved : ∀ patch ∈ ([⟨2, "stone"⟩, ⟨16, "moss"⟩, ⟨32, "X"⟩] : List Bytecode.Listing.Patch),
      ∃ id, resolver patch.name = some id ∧ id < Bytecode.limit24 := by
    intro patch member
    simp only [List.mem_cons, List.not_mem_nil, or_false] at member
    rcases member with rfl | rfl | rfl
    · exact ⟨0, by decide, by decide⟩
    · exact ⟨1, by decide, by decide⟩
    · exact ⟨2, by decide, by decide⟩
  exact ⟨_, compiled, resolved, bake_link_compile provider 0 compiled resolved⟩

end TextureLoom.Program
