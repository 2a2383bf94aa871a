import TextureLoom.Bake.Machine
import TextureLoom.Proofs.Bytecode.Decoding

set_option autoImplicit false

namespace TextureLoom.Bake

open Bytecode (AnimParams Inset Instr)

/-- From every memory that satisfies `inv`, the run gives `result` and leaves such a memory. -/
def Gives {α : Type} (inv : Memory → Prop) (run : Machine α) (result : Except BakeError α) : Prop :=
  ∀ memory, inv memory → (run.run.run memory).1 = result ∧ inv (run.run.run memory).2

variable {α β : Type} {inv : Memory → Prop}

theorem gives_pure (a : α) : Gives inv (pure a) (pure a) := fun _ holds => ⟨rfl, holds⟩

theorem gives_throw (e : BakeError) : Gives inv (throw e : Machine α) (throw e) := fun _ holds => ⟨rfl, holds⟩

theorem Gives.bind {run : Machine α} {next : α → Machine β} {result : Except BakeError α}
    {after : α → Except BakeError β} (first : Gives inv run result)
    (second : ∀ a, result = .ok a → Gives inv (next a) (after a)) : Gives inv (run >>= next) (result >>= after) := by
  intro memory holds
  obtain ⟨given, left⟩ := first memory holds
  have split : (run >>= next).run.run memory =
      match run.run.run memory with
      | (.ok a, memory) => (next a).run.run memory
      | (.error e, memory) => (.error e, memory) := by
    simp only [ExceptT.run_bind, StateT.run_bind]
    rcases run.run.run memory with ⟨_ | _, _⟩ <;> rfl
  rw [split]
  generalize run.run.run memory = whole at given left
  subst given
  rcases whole with ⟨_ | a, after⟩
  · exact ⟨rfl, left⟩
  · exact second a rfl after left

theorem gives_get {next : Memory → Machine α} {result : Except BakeError α}
    (each : ∀ memory, inv memory → Gives inv (next memory) result) : Gives inv (get >>= next) result :=
  fun memory holds => each memory holds memory holds

theorem gives_modify {f : Memory → Memory} {next : Machine α} {result : Except BakeError α}
    (keeps : ∀ memory, inv memory → inv (f memory)) (gives : Gives inv next result) :
    Gives inv (do modify f; next) result := fun memory holds => gives (f memory) (keeps memory holds)

/-- A relation between runs of two kinds that has runs side by side: they give the same, they throw the same if it is
not for want of a texture, and they go on from related runs. -/
structure Lockstep (m n : Type → Type) [Monad m] [MonadExceptOf BakeError m] [Monad n] [MonadExceptOf BakeError n]
    (rel : ∀ {α : Type}, m α → n α → Prop) : Prop where
  pure : ∀ {α : Type} (a : α), rel (pure a) (pure a)
  throw : ∀ {α : Type} (e : BakeError), (∀ id, e ≠ .missingTexture id) → rel (throw e : m α) (throw e)
  bind : ∀ {α β : Type} {run : m α} {other : n α} {next : α → m β} {after : α → n β}, rel run other →
    (∀ a, rel (next a) (after a)) → rel (run >>= next) (other >>= after)

theorem lockstep_gives (inv : Memory → Prop) : Lockstep Machine (Except BakeError) (Gives inv) where
  pure := gives_pure
  throw := fun e _ => gives_throw e
  bind := fun first second => first.bind fun a _ => second a

namespace Lockstep

variable {m n : Type → Type} [Monad m] [MonadExceptOf BakeError m] [Monad n] [MonadExceptOf BakeError n]
  {rel : ∀ {α : Type}, m α → n α → Prop}

theorem checkSize (lockstep : Lockstep m n rel) (width height : Nat) :
    rel (Bake.checkSize width height) (Bake.checkSize width height) := by
  unfold Bake.checkSize
  split
  · exact lockstep.throw _ nofun
  · exact lockstep.pure ()

theorem checkNonempty (lockstep : Lockstep m n rel) (what : String) (width height position : Nat) :
    rel (Bake.checkNonempty what width height position) (Bake.checkNonempty what width height position) := by
  unfold Bake.checkNonempty
  split
  · exact lockstep.throw _ nofun
  · exact lockstep.pure ()

theorem checkFrames (lockstep : Lockstep m n rel) (params : AnimParams) (sheet : Image) :
    rel (Bake.checkFrames params sheet) (Bake.checkFrames params sheet) := lockstep.checkSize _ _

theorem needBase (lockstep : Lockstep m n rel) {σ τ : Type} {i : Instr σ} {j : Instr τ}
    (same : i.mnemonic = j.mnemonic) (position : Nat) (current : Option Image) :
    rel (Bake.needBase i position current) (Bake.needBase j position current) := by
  cases current with
  | none =>
    rw [Bake.needBase, Bake.needBase, same]
    exact lockstep.throw _ nofun
  | some img => exact lockstep.pure img

variable {σ τ ρ : Type} {load : τ → m Image} {eval : ρ → n Image} {size : σ → Nat} {f : Nat → σ → τ} {g : σ → ρ}

theorem placeInsets (lockstep : Lockstep m n rel) (insets : List (Inset σ)) :
    (∀ inset ∈ insets, ∀ start, rel (load (f start inset.source)) (eval (g inset.source))) →
      ∀ start canvas, rel (Bake.placeInsets load canvas (Instr.place.placeInsets size f start #[] insets))
        (Bake.placeInsets eval canvas (insets.map fun p => ⟨p.x, p.y, g p.source⟩)) := by
  induction insets with
  | nil =>
    intro _ start canvas
    exact lockstep.pure canvas
  | cons inset rest ih =>
    intro loads start canvas
    rw [Instr.placeInsets_cons, List.map_cons, Bake.placeInsets, Bake.placeInsets, List.foldlM_cons, List.foldlM_cons]
    refine lockstep.bind (lockstep.bind (loads inset (by simp) _) fun img => lockstep.pure _) ?_
    intro laid
    exact ih (fun later member => loads later (by simp [member])) _ laid

/-- An instruction is run side by side in two kinds of runs if its operands are loaded so. -/
theorem step (lockstep : Lockstep m n rel) (seconds : Float) (position : Nat) (i : Instr σ) (current : Option Image)
    (start : Nat) (loads : ∀ s ∈ i.sources, ∀ start, rel (load (f start s)) (eval (g s))) :
    rel (Bake.step load seconds position (i.place size f start) current)
      (Bake.step eval seconds position (i.map g) current) := by
  cases i with
  | texture s => exact loads s (by simp [Instr.sources]) _
  | fill w h c =>
    refine lockstep.bind (lockstep.checkNonempty _ _ _ _) fun _ => lockstep.bind (lockstep.checkSize _ _) fun _ => ?_
    exact lockstep.pure _
  | sheet s p =>
    apply lockstep.bind (loads s (by simp [Instr.sources]) _)
    intro sheet
    exact lockstep.bind (lockstep.checkFrames p sheet) fun _ => lockstep.pure _
  | resize w h =>
    apply lockstep.bind (lockstep.needBase rfl _ _)
    intro img
    refine lockstep.bind (lockstep.checkNonempty _ _ _ _) fun _ => lockstep.bind (lockstep.checkSize _ _) fun _ => ?_
    exact lockstep.pure _
  | animate p =>
    apply lockstep.bind (lockstep.needBase rfl _ _)
    intro sheet
    exact lockstep.bind (lockstep.checkFrames p sheet) fun _ => lockstep.pure _
  | overlay s =>
    apply lockstep.bind (loads s (by simp [Instr.sources]) _)
    intro top
    cases current with
    | none => exact lockstep.pure top
    | some img => exact lockstep.pure _
  | mask s | lowPart p s =>
    apply lockstep.bind (lockstep.needBase rfl _ _)
    intro img
    exact lockstep.bind (loads s (by simp [Instr.sources]) _) fun _ => lockstep.pure _
  | combine w h insets =>
    rw [Instr.map_combine]
    refine lockstep.bind (lockstep.checkNonempty _ _ _ _) fun _ => lockstep.bind (lockstep.checkSize _ _) fun _ => ?_
    refine lockstep.placeInsets insets ?_ _ _
    exact fun inset member => loads inset.source (List.mem_map_of_mem member)
  | _ => exact lockstep.bind (lockstep.needBase rfl _ _) fun img => lockstep.pure _

theorem step_map (lockstep : Lockstep m n rel) {load : σ → m Image} (seconds : Float) (position : Nat) (i : Instr σ)
    (current : Option Image) (loads : ∀ s ∈ i.sources, rel (load s) (eval (g s))) :
    rel (Bake.step load seconds position i current) (Bake.step eval seconds position (i.map g) current) := by
  have stepped : rel (Bake.step load seconds position (i.place (fun _ => 0) (fun _ s => s) 0) current)
      (Bake.step eval seconds position (i.map g) current) :=
    lockstep.step seconds position i current 0 fun s isSource _ => loads s isSource
  rwa [Instr.place_self] at stepped

end Lockstep

end TextureLoom.Bake
