import TextureLoom.Proofs.Bake.Dependence
import TextureLoom.Proofs.Bake.Simulation
import TextureLoom.Proofs.Bytecode.Reaching

set_option autoImplicit false

namespace TextureLoom

open Bytecode (Block Instr Located Operand Reaches Renumbers)

/-- The error with the id that it names replaced. -/
def BakeError.rename (rename : Nat → Nat) : BakeError → BakeError
  | .missingTexture id => .missingTexture (rename id)
  | e => e

/-- The textures under their old ids. -/
def Provider.renamed (provider : Provider) (rename : Nat → Nat) : Provider := fun id => provider (rename id)

namespace Bake

variable {rename : Nat → Nat} {provider : Provider}

/-- The second memory has the same blocks as the first, and both have what the provider has for their ids, which are old
ids in the first. -/
structure Memory.Mirrors (rename : Nat → Nat) (provider : Provider) (memory mirror : Memory) : Prop where
  blocks : mirror.blocks = memory.blocks
  old : ∀ id img, memory.textures.lookup id = some img → provider.image? (rename id) = some img
  new : ∀ id img, mirror.textures.lookup id = some img → provider.image? id = some img

/-- The second run comes to what the first comes to with the old ids. -/
def Mirrors (rename : Nat → Nat) (provider : Provider) {α : Type} (run mirror : Machine α) : Prop :=
  ∀ memory reflected, Memory.Mirrors rename provider memory reflected →
    (mirror.run.run reflected).1 = (run.run.run memory).1.mapError (BakeError.rename rename) ∧
      Memory.Mirrors rename provider (run.run.run memory).2 (mirror.run.run reflected).2

theorem mirrors_throw {α : Type} (e : BakeError) :
    Mirrors rename provider (throw e : Machine α) (throw (e.rename rename)) := fun _ _ mirrors => ⟨rfl, mirrors⟩

theorem Mirrors.bind {α β : Type} {run mirror : Machine α} {next after : α → Machine β}
    (first : Mirrors rename provider run mirror) (second : ∀ a, Mirrors rename provider (next a) (after a)) :
    Mirrors rename provider (run >>= next) (mirror >>= after) := by
  intro memory reflected mirrors
  obtain ⟨same, left⟩ := first memory reflected mirrors
  rw [run_bind, run_bind]
  generalize run.run.run memory = whole at same left
  generalize mirror.run.run reflected = image at same left
  obtain ⟨result, memory⟩ := whole
  obtain ⟨_, reflected⟩ := image
  cases same
  cases result with
  | error e => exact ⟨rfl, left⟩
  | ok a => exact second a memory reflected left

theorem lockstep_mirrors (rename : Nat → Nat) (provider : Provider) :
    Lockstep Machine Machine (Mirrors rename provider) where
  pure := fun _ _ _ mirrors => ⟨rfl, mirrors⟩
  throw := by
    intro α e notMissing
    have same : e.rename rename = e := by
      cases e with
      | missingTexture id => exact absurd rfl (notMissing id)
      | _ => rfl
    have throws : Mirrors rename provider (throw e : Machine α) (throw (e.rename rename)) := mirrors_throw e
    rwa [same] at throws
  bind := Mirrors.bind

/-- A texture that is asked for under its old id is the one that is asked for under its new one. -/
theorem mirrors_loadTexture (id : Nat) :
    Mirrors rename provider (loadTexture (provider.renamed rename) id) (loadTexture provider (rename id)) := by
  intro memory reflected mirrors
  have sameImage : (provider.renamed rename).image? id = provider.image? (rename id) := rfl
  have keep : ∀ (place : Nat → Nat) {textures : List (Nat × Image)} {id : Nat} {img : Image},
      (∀ other found, textures.lookup other = some found → provider.image? (place other) = some found) →
      provider.image? (place id) = some img → ∀ other found, ((id, img) :: textures).lookup other = some found →
      provider.image? (place other) = some found := by
    intro place textures id img all has other found known
    rw [List.lookup_cons] at known
    split at known
    · next same =>
      rw [beq_iff_eq.mp same, has, known]
    · exact all other found known
  rw [run_loadTexture, run_loadTexture, sameImage]
  cases old : memory.textures.lookup id with
  | some img =>
    have has := mirrors.old id img old
    cases new : reflected.textures.lookup (rename id) with
    | some other =>
      cases has.symm.trans (mirrors.new _ other new)
      exact ⟨rfl, mirrors⟩
    | none =>
      simp only [has]
      exact ⟨rfl, mirrors.blocks, mirrors.old, keep (fun id => id) mirrors.new has⟩
  | none =>
    cases new : reflected.textures.lookup (rename id) with
    | some img =>
      have has := mirrors.new _ img new
      simp only [has]
      exact ⟨rfl, mirrors.blocks, keep rename mirrors.old has, mirrors.new⟩
    | none =>
      cases has : provider.image? (rename id) with
      | none => exact ⟨rfl, mirrors.blocks, mirrors.old, mirrors.new⟩
      | some img => exact ⟨rfl, mirrors.blocks, keep rename mirrors.old has, keep (fun id => id) mirrors.new has⟩

section

variable {code code' : Array UInt8} {active : List (Nat × Nat)}

theorem mirrors_loadBlock (size : code'.size = code.size) {range : Nat × Nat} {run mirror : Machine Image}
    (inner : Mirrors rename provider run mirror) :
    Mirrors rename provider (loadBlock code run active range) (loadBlock code' mirror active range) := by
  intro memory reflected mirrors
  rw [run_loadBlock, run_loadBlock, mirrors.blocks, size]
  cases memory.blocks.lookup range with
  | some img => exact ⟨rfl, mirrors⟩
  | none =>
    dsimp only
    split
    · exact ⟨rfl, mirrors⟩
    · split
      · exact ⟨rfl, mirrors⟩
      · obtain ⟨same, left⟩ := inner memory reflected mirrors
        generalize run.run.run memory = whole at same left
        generalize mirror.run.run reflected = image at same left
        obtain ⟨result, memory⟩ := whole
        obtain ⟨_, reflected⟩ := image
        cases same
        cases result with
        | error e => exact ⟨rfl, left⟩
        | ok img => exact ⟨rfl, congrArg (List.cons (range, img)) left.blocks, left.old, left.new⟩

theorem mirrors_loadWith (size : code'.size = code.size) {run mirror : Nat × Nat → Machine Image} {operand : Operand}
    (inner : ∀ range, operand.block? = some range → Mirrors rename provider (run range) (mirror range)) :
    Mirrors rename provider (loadWith code (provider.renamed rename) run active operand)
      (loadWith code' provider mirror active (operand.renumber fun _ => rename)) := by
  obtain ⟨field, origin⟩ := operand
  cases origin with
  | texture id => exact mirrors_loadTexture id
  | block offset length => exact mirrors_loadBlock size (inner (offset, length) rfl)

/-- The image of a block is made with the old ids as with the new ones, if that of its operands is. -/
theorem mirrors_runBlock {load mirror : Operand → Machine Image} (seconds : Float) (block : Block)
    (loads : ∀ l ∈ block.instrs, ∀ operand ∈ l.instr.sources,
      Mirrors rename provider (load operand) (mirror (operand.renumber fun _ => rename))) :
    Mirrors rename provider (runBlock load seconds block)
      (runBlock mirror seconds (block.renumber fun _ => rename)) := by
  have lockstep := lockstep_mirrors rename provider
  have each : ∀ (instrs : List Located) (current : Option Image),
      (∀ l ∈ instrs, ∀ operand ∈ l.instr.sources,
        Mirrors rename provider (load operand) (mirror (operand.renumber fun _ => rename))) →
      Mirrors rename provider
        (instrs.foldlM (fun current located => do
          pure (some (← step load seconds located.position located.instr current))) current)
        ((instrs.map (Located.renumber fun _ => rename)).foldlM (fun current located => do
          pure (some (← step mirror seconds located.position located.instr current))) current) := by
    intro instrs
    induction instrs with
    | nil => exact fun current _ => lockstep.pure current
    | cons l rest ih =>
      intro current loads
      rw [List.map_cons, List.foldlM_cons, List.foldlM_cons]
      have stepped := lockstep.step_map seconds l.position l.instr current (loads l List.mem_cons_self)
      exact (stepped.bind fun img => lockstep.pure (some img)).bind fun current =>
        ih current fun other member => loads other (List.mem_cons_of_mem l member)
  refine (each block.instrs none loads).bind fun current => ?_
  rw [Block.renumber]
  cases block.finish with
  | error e => exact lockstep.throw _ (by simp)
  | ok position =>
    cases current with
    | none => exact lockstep.throw _ (by simp)
    | some img => exact lockstep.pure img

/-- Whatever a program reaches makes the same image in another that is the same but for ids. -/
theorem mirrors_load (renumbers : Renumbers (fun _ => rename) code code') (seconds : Float) (room : Nat) :
    ∀ (active : List (Nat × Nat)) {range : Nat × Nat}, Reaches code range → Mirrors rename provider
      (runBlock (load code (provider.renamed rename) seconds room active) seconds (Block.within code range))
      (runBlock (load code' provider seconds room active) seconds (Block.within code' range)) := by
  have named : ∀ {range inner : Nat × Nat} {l : Located} {operand : Operand}, l ∈ (Block.within code range).instrs →
      operand ∈ l.instr.sources → operand.block? = some inner → (Block.within code range).Names inner :=
    fun member isSource names => ⟨_, member, List.mem_filterMap.mpr ⟨_, isSource, names⟩⟩
  -- On the levels left, as the loading of operands goes.
  induction room with
  | zero =>
    intro active range reaches
    rw [renumbers.blocks range reaches, load_zero, load_zero]
    refine mirrors_runBlock seconds _ fun l member operand isSource => ?_
    exact mirrors_loadWith renumbers.size fun _ _ => mirrors_throw .tooDeep
  | succ room ih =>
    intro active range reaches
    rw [renumbers.blocks range reaches, load_succ, load_succ]
    refine mirrors_runBlock seconds _ fun l member operand isSource => ?_
    exact mirrors_loadWith renumbers.size fun inner names => ih _ (.named reaches (named member isSource names))

end

end Bake

/-- A program that is the same as another but for ids makes of some textures what that one makes of them under the old
ids. -/
theorem bake_renumbers {rename : Nat → Nat} {code code' : Array UInt8}
    (renumbers : Renumbers (fun _ => rename) code code') (provider : Provider) (seconds : Float) :
    (bake code' provider seconds).1 =
      (bake code (provider.renamed rename) seconds).1.mapError (BakeError.rename rename) := by
  have start : Bake.Memory.Mirrors rename provider {} {} := ⟨rfl, nofun, nofun⟩
  have same := (Bake.mirrors_load renumbers seconds Bytecode.depthLimit [] .whole {} {} start).1
  rw [bake, bake, Block.of_whole, Block.of_whole, renumbers.size]
  generalize StateT.run (ExceptT.run (Bake.runBlock _ _ (Block.within code' _))) _ = made at same ⊢
  generalize StateT.run (ExceptT.run (Bake.runBlock _ _ (Block.within code _))) _ = madeBefore at same ⊢
  exact same

end TextureLoom
