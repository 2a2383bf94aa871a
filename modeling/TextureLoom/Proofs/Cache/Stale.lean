import TextureLoom.Cache.Basic
import TextureLoom.Proofs.Bake.Dependence
import TextureLoom.Proofs.Repeats

set_option autoImplicit false

namespace TextureLoom

namespace Cache

/-- A recipe is noted as a reader of a texture. -/
def Reads (readers : Table Nat (List Recipe)) (texture : Nat) (r : Recipe) : Prop :=
  r ∈ (readers.get? texture).getD []

variable {readers : Table Nat (List Recipe)} {texture other : Nat} {r s : Recipe}

theorem reads_addReader : Reads (addReader s readers texture) other r ↔
    Reads readers other r ∨ other = texture ∧ r = s := by
  unfold Reads addReader
  by_cases same : other = texture
  · subst same
    simp [Table.get?_insert_self]
  · simp [Table.get?_insert_of_ne _ _ same, same]

/-- Another recipe stays a reader. -/
theorem reads_dropReader (reads : Reads readers other r) (distinct : r ≠ s) :
    Reads (dropReader s readers texture) other r := by
  unfold dropReader
  cases found : readers.get? texture with
  | none => exact reads
  | some others =>
    by_cases same : other = texture
    · subst same
      have member : r ∈ others.erase s := by
        rw [List.mem_erase_of_ne distinct]
        simpa [Reads, found] using reads
      have nonempty : (others.erase s).isEmpty = false := by
        rw [List.isEmpty_eq_false_iff]
        exact List.ne_nil_of_mem member
      simp only [nonempty, Bool.false_eq_true, if_false, Reads, Table.get?_insert_self]
      exact member
    · dsimp only
      split
      · rw [Reads, Table.get?_erase_of_ne _ same]
        exact reads
      · rw [Reads, Table.get?_insert_of_ne _ _ same]
        exact reads

theorem reads_foldl_addReader (textures : List Nat) :
    Reads (textures.foldl (addReader s) readers) other r ↔ Reads readers other r ∨ other ∈ textures ∧ r = s := by
  induction textures generalizing readers with
  | nil => simp
  | cons texture rest ih =>
    rw [List.foldl_cons, ih, reads_addReader, List.mem_cons, or_and_right, or_assoc]

theorem reads_foldl_dropReader (textures : List Nat) (reads : Reads readers other r) (distinct : r ≠ s) :
    Reads (textures.foldl (dropReader s) readers) other r :=
  List.foldlRecOn (motive := fun readers => Reads readers other r) textures (dropReader s) reads
    fun _ before _ _ => reads_dropReader before distinct

/-- The recipes to bake again are the readers of changed textures, and those that changed themselves. -/
theorem mem_stale {c : Cache} :
    r ∈ c.stale ↔ (∃ texture ∈ c.changedTextures, Reads c.readers texture r) ∨ r ∈ c.changedRecipes := by
  simp [stale, mem_eraseReps, List.mem_mergeSort, Reads]

/-- What a recipe shows is settled by the textures that it depends on, and by what its animations show. -/
theorem generate_congr {c d : Cache} (textures : ∀ id ∈ r.dependencies, c.raw.get? id = d.raw.get? id)
    (still : ∀ spec ∈ r.animations, Bake.Setting.Still ⟨c.raw.get?, c.seconds⟩ ⟨d.raw.get?, d.seconds⟩ spec) :
    c.generate r = d.generate r := by
  have fallback : c.fallback r = d.fallback r := by
    unfold Cache.fallback
    cases first : r.dependencies.head? with
    | none => rfl
    | some id =>
      have depends : id ∈ r.dependencies := List.mem_of_head? first
      simp only [Option.bind_some, textures id depends]
  have images : ∀ id ∈ r.dependencies, Provider.image? c.raw.get? id = Provider.image? d.raw.get? id := by
    intro id depends
    rw [Provider.image?, Provider.image?, textures id depends]
  have same := bake_congr r.code ⟨c.raw.get?, c.seconds⟩ ⟨d.raw.get?, d.seconds⟩ images still
  dsimp only at same
  rw [generate, generate, same, fallback]

end Cache

end TextureLoom
