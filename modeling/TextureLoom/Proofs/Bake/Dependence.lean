import TextureLoom.Proofs.Bake.Tracking

set_option autoImplicit false

namespace TextureLoom.Bake

open Bytecode (Block Instr Located Operand Origin Trail)
open Bytecode.Reach

theorem isSome_lookup_cons {α β : Type} [BEq α] [LawfulBEq α] {key other : α} {value : β} {table : List (α × β)} :
    (((key, value) :: table).lookup other).isSome ↔ other = key ∨ (table.lookup other).isSome := by
  simp only [List.lookup_isSome_iff, List.mem_cons, exists_eq_or_imp, beq_iff_eq]

theorem run_get_bind {ε σ α : Type} (next : σ → ExceptT ε (StateM σ) α) (state : σ) :
    (get >>= next).run.run state = (next state).run.run state := rfl

theorem run_loadTexture (provider : Provider) (id : Nat) (memory : Memory) :
    (loadTexture provider id).run.run memory =
      match memory.textures.lookup id with
      | some img => (.ok img, memory)
      | none =>
        match provider.image? id with
        | none => (.error (.missingTexture id), { memory with asked := memory.asked.push id })
        | some img => (.ok img,
            { memory with asked := memory.asked.push id, textures := (id, img) :: memory.textures }) := by
  rw [loadTexture, run_get_bind, Provider.image?]
  cases memory.textures.lookup id with
  | some img => rfl
  | none => cases (provider id).bind TextureView.image? <;> rfl

theorem run_loadBlock (code : Array UInt8) (run : Machine Image) (active : List (Nat × Nat)) (range : Nat × Nat)
    (memory : Memory) :
    (loadBlock code run active range).run.run memory =
      match memory.blocks.lookup range with
      | some img => (.ok img, memory)
      | none =>
        if range.2 = 0 ∨ code.size < range.1 + range.2 then
          (.error (.blockOutOfRange range.1 range.2 code.size), memory)
        else if active.contains range then (.error (.recursiveBlock range.1 range.2), memory)
        else
          match run.run.run memory with
          | (.ok img, after) => (.ok img, { after with blocks := (range, img) :: after.blocks })
          | (.error e, after) => (.error e, after) := by
  rw [loadBlock, run_get_bind]
  cases memory.blocks.lookup range with
  | some img => rfl
  | none =>
    dsimp only
    split
    · rfl
    · split
      · rfl
      · rw [run_bind]
        rcases run.run.run memory with ⟨_ | _, _⟩ <;> rfl

/-- How an operand is loaded when its block is run by `run`. -/
def loadWith (code : Array UInt8) (provider : Provider) (run : Nat × Nat → Machine Image) (active : List (Nat × Nat))
    (operand : Operand) : Machine Image :=
  match operand.origin with
  | .texture id => loadTexture provider id
  | .block offset length => loadBlock code (run (offset, length)) active (offset, length)

theorem load_zero (code : Array UInt8) (provider : Provider) (seconds : Float) (active : List (Nat × Nat)) :
    load code provider seconds 0 active = loadWith code provider (fun _ => throw .tooDeep) active := by
  funext operand
  cases origin : operand.origin <;> simp only [load, loadWith, origin]

theorem load_succ (code : Array UInt8) (provider : Provider) (seconds : Float) (room : Nat)
    (active : List (Nat × Nat)) :
    load code provider seconds (room + 1) active =
      loadWith code provider (fun range =>
        runBlock (load code provider seconds room (range :: active)) seconds
          (Block.of code range.1 (range.1 + range.2))) active := by
  funext operand
  cases origin : operand.origin <;> simp only [load, loadWith, origin]

variable {code : Array UInt8} {first second : Setting} {active : List (Nat × Nat)} {trail : Trail} {owed : List Nat}

namespace Memory.Tracks

variable {memory : Memory} {id : Nat}

/-- What a texture not loaded yet leaves in the memory when it is asked for. -/
theorem ask (tracks : memory.Tracks first.provider active ⟨trail, id :: owed⟩) (named : id ∈ trail.ids)
    (unknown : memory.textures.lookup id = none) :
    ({ memory with asked := memory.asked.push id } : Memory).Bounded trail := by
  have fresh : id ∉ memory.asked := by
    intro asked
    simpa [unknown] using (tracks.kept id).mpr asked
  constructor
  · rw [Array.toList_push, List.nodup_append]
    refine ⟨tracks.once, List.pairwise_singleton _ id, ?_⟩
    rintro other asked _ added rfl
    rw [List.mem_singleton] at added
    exact fresh (added ▸ Array.mem_toList_iff.mp asked)
  · intro other asked
    rcases Array.mem_push.mp asked with before | rfl
    · exact tracks.named other before
    · exact named

theorem settle (tracks : memory.Tracks first.provider active ⟨trail, id :: owed⟩) {asked : Array Nat}
    (keeps : ∀ other ∈ memory.asked, other ∈ asked) (paid : id ∈ asked) :
    ∀ other ∈ trail.ids, other ∈ owed ∨ other ∈ asked := by
  intro other met
  rcases tracks.settled other met with owing | settled
  · rcases List.mem_cons.mp owing with rfl | owing
    · exact .inr paid
    · exact .inl owing
  · exact .inr (keeps other settled)

theorem know (tracks : memory.Tracks first.provider active ⟨trail, id :: owed⟩) (named : id ∈ trail.ids)
    (unknown : memory.textures.lookup id = none) {img : Image} (has : first.provider.image? id = some img) :
    ({ memory with asked := memory.asked.push id, textures := (id, img) :: memory.textures } : Memory).Tracks
      first.provider active ⟨trail, owed⟩ where
  toBounded := ⟨(tracks.ask named unknown).once, (tracks.ask named unknown).named⟩
  entered := tracks.entered
  loaded := by
    intro other found known
    rw [List.lookup_cons] at known
    split at known
    · next same =>
      rw [beq_iff_eq] at same
      rw [same, has, known]
    · exact tracks.loaded other found known
  kept := by
    intro other
    rw [isSome_lookup_cons, Array.mem_push, ← tracks.kept other]
    exact or_comm
  settled := tracks.settle (fun _ asked => Array.mem_push_of_mem _ asked) Array.mem_push_self

/-- A block is under way from when it is entered -/
theorem enter (tracks : memory.Tracks first.provider active ⟨trail, owed⟩) (range : Nat × Nat) :
    memory.Tracks first.provider (range :: active) ⟨{ trail with entered := range :: trail.entered }, owed⟩ where
  toBounded := ⟨tracks.once, tracks.named⟩
  entered := by
    intro other
    simp only [List.mem_cons, tracks.entered other]
    exact or_left_comm
  loaded := tracks.loaded
  kept := tracks.kept
  settled := tracks.settled

/-- and finished once its image is remembered. -/
theorem finish {range : Nat × Nat} (tracks : memory.Tracks first.provider (range :: active) ⟨trail, owed⟩)
    (img : Image) :
    ({ memory with blocks := (range, img) :: memory.blocks } : Memory).Tracks first.provider active
      ⟨trail, owed⟩ where
  toBounded := ⟨tracks.once, tracks.named⟩
  entered := by
    intro other
    rw [tracks.entered other, isSome_lookup_cons, List.mem_cons, or_assoc]
    exact or_left_comm
  loaded := tracks.loaded
  kept := tracks.kept
  settled := tracks.settled

end Memory.Tracks

/-- A texture is asked for the first time that it is needed. -/
theorem follows_loadTexture {id : Nat} (named : id ∈ trail.ids) (owed : List Nat) :
    Follows first second active ⟨trail, id :: owed⟩ ⟨trail, owed⟩ (loadTexture first.provider id)
      (loadTexture second.provider id) fun img => first.provider.image? id = some img := by
  intro memory tracks
  rw [run_loadTexture, run_loadTexture]
  have same : (∀ i ∈ trail.met, first.Alike second i) → first.provider.image? id = second.provider.image? id := by
    intro alike
    obtain ⟨i, met, names⟩ := Trail.mem_ids.mp named
    exact (alike i met).textures id names
  cases known : memory.textures.lookup id with
  | some img =>
    have asked : id ∈ memory.asked := (tracks.kept id).mp (by rw [known, Option.isSome_some])
    exact ⟨fun _ => rfl, tracks.loaded id img known,
      ⟨tracks.toBounded, tracks.entered, tracks.loaded, tracks.kept, tracks.settle (fun _ before => before) asked⟩⟩
  | none =>
    cases image : first.provider.image? id with
    | none => exact ⟨fun alike => by rw [← same alike, image], tracks.ask named known⟩
    | some img => exact ⟨fun alike => by rw [← same alike, image], rfl, tracks.know named known image⟩

/-- A block is run the first time that it is needed, which is when the walk enters it. -/
theorem follows_loadBlock {descend : Nat × Nat → Trail → Trail}
    (deeper : ∀ range (trail : Trail), trail.Grows (descend range trail))
    {operand : Operand} {range : Nat × Nat} (names : operand.block? = some range) {run other : Machine Image}
    (inner : Follows first second (range :: active) ⟨{ trail with entered := range :: trail.entered }, owed⟩
      ⟨descend range trail, owed⟩ run other fun _ => True) :
    Follows first second active ⟨trail, owed⟩ ⟨visit code descend trail operand, owed⟩
      (loadBlock code run active range) (loadBlock code other active range) fun _ => True := by
  intro memory tracks
  have visits : visit code descend trail operand =
      if trail.entered.contains range then trail
      else if range.2 = 0 ∨ code.size < range.1 + range.2 then trail else descend range trail := by
    rw [visit, names]
  have grows : trail.Grows (visit code descend trail operand) := grows_visit deeper trail operand
  have before := tracks.toBounded.grow grows
  rw [run_loadBlock, run_loadBlock]
  cases known : memory.blocks.lookup range with
  | some img =>
    have entered : range ∈ trail.entered := (tracks.entered range).mpr (.inl (by rw [known, Option.isSome_some]))
    rw [visits, if_pos (List.contains_iff_mem.mpr entered)]
    exact ⟨fun _ => rfl, trivial, tracks⟩
  | none =>
    dsimp only
    by_cases outside : range.2 = 0 ∨ code.size < range.1 + range.2
    · simp only [if_pos outside]
      exact ⟨fun _ => trivial, before⟩
    · by_cases under : range ∈ active
      · simp only [if_neg outside, if_pos (List.contains_iff_mem.mpr under)]
        exact ⟨fun _ => trivial, before⟩
      · have fresh : range ∉ trail.entered := by
          rw [tracks.entered range, known]
          simpa using under
        simp only [visits, if_neg outside, if_neg (mt List.contains_iff_mem.mp under),
          if_neg (mt List.contains_iff_mem.mp fresh)]
        obtain ⟨same, outcome⟩ := inner memory (tracks.enter range)
        refine ⟨fun alike => by rw [same alike], ?_⟩
        generalize run.run.run memory = whole at outcome
        rcases whole with ⟨e | img, after⟩
        · exact outcome
        · exact ⟨trivial, outcome.2.finish img⟩

/-- An instruction owes the ids that it names from when the walk meets it. -/
theorem Follows.meet {α : Type} {finish : Progress} {run other : Machine α} {post : α → Prop} {i : Instr Operand}
    (follows : Follows first second active ⟨trail.record i, i.ids ++ owed⟩ finish run other post) :
    Follows first second active ⟨trail, owed⟩ finish run other post := by
  intro memory tracks
  apply follows memory
  refine ⟨tracks.toBounded.grow (trail.grows_record i), tracks.entered, tracks.loaded, tracks.kept, ?_⟩
  intro id named
  obtain ⟨j, met, names⟩ := Trail.mem_ids.mp named
  rcases Array.mem_push.mp met with earlier | rfl
  · rcases tracks.settled id (Trail.mem_ids.mpr ⟨j, earlier, names⟩) with owing | settled
    · exact .inl (List.mem_append_right _ owing)
    · exact .inr settled
  · exact .inl (List.mem_append_left _ names)

section

variable {descend : Nat × Nat → Trail → Trail} {load other : Operand → Machine Image}

theorem follows_instrs (deeper : ∀ range (trail : Trail), trail.Grows (descend range trail))
    (loads : Loads first second active code descend load other) (owed : List Nat) (instrs : List Located) :
    ∀ (trail : Trail) (current : Option Image), Follows first second active ⟨trail, owed⟩
      ⟨instrs.foldl (fun trail located => meet code descend trail located.instr) trail, owed⟩
      (instrs.foldlM (fun current located => do
        pure (some (← step load first.seconds located.position located.instr current))) current)
      (instrs.foldlM (fun current located => do
        pure (some (← step other second.seconds located.position located.instr current))) current)
      fun _ => True := by
  induction instrs with
  | nil => exact fun trail current => follows_pure _
  | cons located rest ih =>
    intro trail current
    rw [List.foldlM_cons, List.foldlM_cons, List.foldl_cons]
    have stepped := follows_step deeper loads located.position current (trail.mem_record located.instr) owed
    refine Follows.bind (Follows.meet (stepped.bind (.refl _) fun img _ => follows_pure _))
      (Trail.Grows.foldl (fun trail (located : Located) => grows_meet deeper trail located.instr) _ _)
      fun current _ => ih _ current

/-- A block meets its instructions in order. -/
theorem follows_runBlock (deeper : ∀ range (trail : Trail), trail.Grows (descend range trail))
    (loads : Loads first second active code descend load other) (block : Block) (trail : Trail) (owed : List Nat) :
    Follows first second active ⟨trail, owed⟩ ⟨roamBlock code descend block trail, owed⟩
      (runBlock load first.seconds block) (runBlock other second.seconds block) fun _ => True := by
  refine (follows_instrs deeper loads owed block.instrs trail none).bind (.refl _) fun current _ => ?_
  cases block.finish with
  | error e => exact follows_throw _ (.refl _)
  | ok position =>
    cases current with
    | none => exact follows_throw _ (.refl _)
    | some img => exact follows_pure img

end

/-- An operand is loaded as the walk follows it, if blocks are run as the walk enters them. -/
theorem loads_of_runs {descend : Nat × Nat → Trail → Trail}
    (deeper : ∀ range (trail : Trail), trail.Grows (descend range trail)) {run other : Nat × Nat → Machine Image}
    (inner : ∀ range trail owed, Follows first second (range :: active)
      ⟨{ trail with entered := range :: trail.entered }, owed⟩ ⟨descend range trail, owed⟩ (run range) (other range)
      fun _ => True) :
    Loads first second active code descend (loadWith code first.provider run active)
      (loadWith code second.provider other active) := by
  intro operand trail owed named
  unfold loadWith
  cases origin : operand.origin with
  | texture id =>
    have ids := Operand.ids_of_texture origin
    have visits : visit code descend trail operand = trail := by simp [visit, Operand.block?, origin]
    rw [ids] at named
    rw [ids, visits]
    refine (follows_loadTexture (named id (List.mem_singleton_self id)) owed).weaken fun img shown other same => ?_
    rwa [← Origin.texture.inj same]
  | block offset length =>
    have ids := Operand.ids_of_block origin
    have names : operand.block? = some (offset, length) := by simp [Operand.block?, origin]
    rw [ids, List.nil_append]
    refine (follows_loadBlock deeper names (inner _ _ _)).weaken fun img _ id texture => ?_
    cases texture

theorem loads_load (room : Nat) (active : List (Nat × Nat)) :
    Loads first second active code (roam code room) (load code first.provider first.seconds room active)
      (load code second.provider second.seconds room active) := by
  -- On the levels left: what a block names is loaded with one less, and with the block itself under way.
  induction room generalizing active with
  | zero =>
    rw [load_zero, load_zero]
    exact loads_of_runs (grows_roam 0) fun range trail owed => follows_throw _ (.refl _)
  | succ room ih =>
    rw [load_succ, load_succ]
    exact loads_of_runs (grows_roam (room + 1)) fun range trail owed =>
      follows_runBlock (grows_roam room) (ih (range :: active)) _ _ owed

/-- Baking a program goes as the walk of it does. -/
theorem follows_bake (code : Array UInt8) (first second : Setting) :
    Follows first second [] ⟨{}, []⟩ ⟨roamed code, []⟩
      (runBlock (load code first.provider first.seconds Bytecode.depthLimit []) first.seconds
        (Block.of code 0 code.size))
      (runBlock (load code second.provider second.seconds Bytecode.depthLimit []) second.seconds
        (Block.of code 0 code.size)) fun _ => True :=
  follows_runBlock (grows_roam _) (loads_load _ _) _ _ _

theorem tracks_empty (provider : Provider) : ({} : Memory).Tracks provider [] ⟨{}, []⟩ where
  once := List.nodup_nil
  named := by simp
  entered := by simp
  loaded := by simp
  kept := by simp
  settled := by simp [Trail.ids]

end TextureLoom.Bake

namespace TextureLoom

open Bytecode (Trail animations dependencies mem_animations mem_dependencies)
open Bytecode.Reach
open Bake (Memory Setting follows_bake tracks_empty)

/-- Two settings that agree on the textures a program depends on and on what its animations show make the same bake
of it. -/
theorem bake_congr (code : Array UInt8) (first second : Setting)
    (textures : ∀ id ∈ dependencies code, first.provider.image? id = second.provider.image? id)
    (still : ∀ spec ∈ animations code, first.Still second spec) :
    bake code first.provider first.seconds = bake code second.provider second.seconds := by
  have alike : ∀ i ∈ (roamed code).met, first.Alike second i := by
    intro i met
    constructor
    · intro id names
      exact textures id (mem_dependencies.mpr (Trail.mem_ids.mpr ⟨i, met, names⟩))
    · intro spec animated
      exact still spec (mem_animations.mpr ⟨i, met, animated⟩)
  have same := (follows_bake code first second {} (tracks_empty first.provider)).1 alike
  rw [bake, bake, same]

/-- What a bake has asked for is what a memory holds that is bounded by the walk, and that has settled all of it when
there is an image. -/
theorem bake_tracks (code : Array UInt8) (provider : Provider) (seconds : Float) :
    ∃ memory : Memory, (bake code provider seconds).2 = memory.asked.toList ∧ memory.Bounded (roamed code) ∧
      ∀ img, (bake code provider seconds).1 = .ok img → memory.Tracks provider [] ⟨roamed code, []⟩ := by
  have outcome := (follows_bake code ⟨provider, seconds⟩ ⟨provider, seconds⟩ {} (tracks_empty provider)).2
  rw [bake]
  generalize StateT.run (ExceptT.run (Bake.runBlock _ _ _)) _ = whole at outcome ⊢
  rcases whole with ⟨e | img, memory⟩
  · exact ⟨memory, rfl, outcome, fun _ made => nomatch made⟩
  · exact ⟨memory, rfl, outcome.2.toBounded, fun _ _ => outcome.2⟩

/-- A program asks only for textures that it depends on, for none of them twice, and for all of them if it makes an
image. What it makes is settled by those textures, and by the time only if it has animations. -/
theorem bake_depends_on_dependencies (code : Array UInt8) (provider : Provider) (seconds : Float) :
    (∀ id ∈ (bake code provider seconds).2, id ∈ dependencies code) ∧ (bake code provider seconds).2.Nodup ∧
      (∀ img, (bake code provider seconds).1 = .ok img →
        ∀ id ∈ dependencies code, id ∈ (bake code provider seconds).2) ∧
      ∀ (other : Provider) (otherSeconds : Float), (∀ id ∈ dependencies code, provider id = other id) →
        seconds = otherSeconds ∨ animations code = [] →
        (bake code provider seconds).1 = (bake code other otherSeconds).1 := by
  obtain ⟨memory, asked, bounded, settled⟩ := bake_tracks code provider seconds
  rw [asked]
  refine ⟨?_, bounded.once, ?_, ?_⟩
  · intro id member
    exact mem_dependencies.mpr (bounded.named id (Array.mem_toList_iff.mp member))
  · intro img made id depends
    rcases (settled img made).settled id (mem_dependencies.mp depends) with owing | member
    · exact absurd owing List.not_mem_nil
    · exact Array.mem_toList_iff.mpr member
  · intro other otherSeconds agree times
    have textures : ∀ id ∈ dependencies code, Provider.image? provider id = Provider.image? other id := by
      intro id depends
      rw [Provider.image?, Provider.image?, agree id depends]
    have still : ∀ spec ∈ animations code, Setting.Still ⟨provider, seconds⟩ ⟨other, otherSeconds⟩ spec := by
      intro spec animated sheet _
      rcases times with rfl | none
      · rfl
      · rw [none] at animated
        exact absurd animated List.not_mem_nil
    rw [bake_congr code ⟨provider, seconds⟩ ⟨other, otherSeconds⟩ textures still]

/-- A block that shows texture 7, with texture 7 laid over it. -/
def coveredTwice : Array UInt8 := #[1, 1, 14, 0, 0, 6, 0, 0, 30, 0, 7, 0, 0, 0, 1, 0, 7, 0, 0, 0]

/-- One dot, and no other texture. -/
def oneDot : Provider := fun id => if id = 7 then some ⟨1, 1, #[0xff0000ff]⟩ else none

/-- A dot for every id. -/
def allDots : Provider := fun _ => some ⟨1, 1, #[0xff0000ff]⟩

theorem bake_coveredTwice :
    (bake coveredTwice oneDot 0).1 = .ok ⟨1, 1, #[0xff0000ff]⟩ ∧
      (∀ id ∈ dependencies coveredTwice, id ∈ (bake coveredTwice oneDot 0).2) ∧ oneDot 8 ≠ allDots 8 ∧
      (bake coveredTwice oneDot 0).1 = (bake coveredTwice allDots 1).1 := by
  obtain ⟨_, _, complete, settled⟩ := bake_depends_on_dependencies coveredTwice oneDot 0
  have made : (bake coveredTwice oneDot 0).1 = .ok ⟨1, 1, #[0xff0000ff]⟩ := by rfl
  have agree : ∀ id ∈ dependencies coveredTwice, oneDot id = allDots id := by decide +kernel
  have unmoving : animations coveredTwice = [] := by decide +kernel
  have differ : oneDot 8 ≠ allDots 8 := by decide
  have asked := complete _ made
  have same := settled allDots 1 agree (.inr unmoving)
  exact ⟨made, asked, differ, same⟩

end TextureLoom
