import TextureLoom.Bake.Machine
import TextureLoom.Proofs.Bytecode.Roaming

set_option autoImplicit false

namespace TextureLoom

open Bytecode (AnimParams AnimSpec Block Inset Instr Located Operand Trail)

/-- The image that a provider has for an id. -/
def Provider.image? (provider : Provider) (id : Nat) : Option Image := (provider id).bind TextureView.image?

namespace Bake

/-- What a program is baked in: the textures, and the time. -/
structure Setting where
  provider : Provider
  seconds : Float

namespace Setting

/-- An animation shows the same in two settings. Where its sheet is a texture, only what the first setting has for
that texture counts as a sheet. -/
def Still (first second : Setting) (spec : AnimSpec) : Prop :=
  ∀ sheet : Image, (∀ id, spec.texture = some id → first.provider.image? id = some sheet) →
    sheet.animate spec.params first.seconds = sheet.animate spec.params second.seconds

/-- An instruction finds the same textures in two settings, and shows the same if it is an animation. -/
structure Alike (first second : Setting) (i : Instr Operand) : Prop where
  textures : ∀ id ∈ i.ids, first.provider.image? id = second.provider.image? id
  still : ∀ spec, i.animSpec? = some spec → first.Still second spec

end Setting

/-- A stage of a walk: the trail so far, and the ids in it that the blocks under way have yet to load. -/
structure Progress where
  trail : Trail
  owed : List Nat

/-- Each id was asked for once, and the trail has it. -/
structure Memory.Bounded (memory : Memory) (trail : Trail) : Prop where
  once : memory.asked.toList.Nodup
  named : ∀ id ∈ memory.asked, id ∈ trail.ids

/-- A memory is where a walk is: the blocks entered are those finished and those under way, and all ids met have been
loaded but for those still owed. -/
structure Memory.Tracks (memory : Memory) (provider : Provider) (active : List (Nat × Nat)) (progress : Progress) :
    Prop extends memory.Bounded progress.trail where
  entered : ∀ range, range ∈ progress.trail.entered ↔ (memory.blocks.lookup range).isSome ∨ range ∈ active
  loaded : ∀ id img, memory.textures.lookup id = some img → provider.image? id = some img
  kept : ∀ id, (memory.textures.lookup id).isSome ↔ id ∈ memory.asked
  settled : ∀ id ∈ progress.trail.ids, id ∈ progress.owed ∨ id ∈ memory.asked

theorem Memory.Bounded.grow {memory : Memory} {trail later : Trail} (bounded : memory.Bounded trail)
    (grows : trail.Grows later) : memory.Bounded later :=
  ⟨bounded.once, fun id asked => grows.ids (bounded.named id asked)⟩

/-- From every memory at `start`, the run in the first setting comes to `finish`, or fails having asked for ids
of `finish` only. Where the two settings are alike for all that `finish` has met, the run in the second does just the
same. -/
def Follows {α : Type} (first second : Setting) (active : List (Nat × Nat)) (start finish : Progress)
    (run other : Machine α) (post : α → Prop) : Prop :=
  ∀ memory : Memory, memory.Tracks first.provider active start →
    ((∀ i ∈ finish.trail.met, first.Alike second i) → other.run.run memory = run.run.run memory) ∧
    match run.run.run memory with
    | (.ok a, after) => post a ∧ after.Tracks first.provider active finish
    | (.error _, after) => after.Bounded finish.trail

section

variable {α β : Type} {first second : Setting} {active : List (Nat × Nat)} {start middle finish : Progress}

theorem run_bind (run : Machine α) (next : α → Machine β) (memory : Memory) :
    (run >>= next).run.run memory =
      match run.run.run memory with
      | (.ok a, after) => (next a).run.run after
      | (.error e, after) => (.error e, after) := by
  simp only [ExceptT.run_bind, StateT.run_bind]
  rcases run.run.run memory with ⟨_ | _, _⟩ <;> rfl

theorem follows_pure (a : α) : Follows first second active start start (pure a) (pure a) fun _ => True :=
  fun _ tracks => ⟨fun _ => rfl, trivial, tracks⟩

theorem follows_throw (e : BakeError) {post : α → Prop} (grows : start.trail.Grows finish.trail) :
    Follows first second active start finish (throw e : Machine α) (throw e) post :=
  fun _ tracks => ⟨fun _ => rfl, tracks.toBounded.grow grows⟩

theorem Follows.bind {run other : Machine α} {next otherNext : α → Machine β} {between : α → Prop} {post : β → Prop}
    (former : Follows first second active start middle run other between)
    (grows : middle.trail.Grows finish.trail)
    (latter : ∀ a, between a → Follows first second active middle finish (next a) (otherNext a) post) :
    Follows first second active start finish (run >>= next) (other >>= otherNext) post := by
  intro memory tracks
  obtain ⟨same, outcome⟩ := former memory tracks
  rw [run_bind, run_bind]
  generalize run.run.run memory = whole at same outcome
  rcases whole with ⟨e | a, after⟩
  · refine ⟨fun alike => ?_, outcome.grow grows⟩
    rw [same fun i met => alike i (grows i met)]
  · obtain ⟨holds, tracked⟩ := outcome
    obtain ⟨sameNext, outcomeNext⟩ := latter a holds after tracked
    refine ⟨fun alike => ?_, outcomeNext⟩
    rw [same fun i met => alike i (grows i met)]
    exact sameNext alike

theorem Follows.weaken {run other : Machine α} {post weaker : α → Prop}
    (follows : Follows first second active start finish run other post) (implies : ∀ a, post a → weaker a) :
    Follows first second active start finish run other weaker := by
  intro memory tracks
  obtain ⟨same, outcome⟩ := follows memory tracks
  refine ⟨same, ?_⟩
  generalize run.run.run memory = whole at outcome
  rcases whole with ⟨e | a, after⟩
  · exact outcome
  · exact ⟨implies a outcome.1, outcome.2⟩

theorem follows_checkSize (width height : Nat) : Follows first second active start start
    (checkSize width height) (checkSize width height) fun _ => True := by
  unfold checkSize
  split
  · exact follows_throw _ (.refl _)
  · exact follows_pure _

theorem follows_checkNonempty (what : String) (width height position : Nat) : Follows first second active start start
    (checkNonempty what width height position) (checkNonempty what width height position) fun _ => True := by
  unfold checkNonempty
  split
  · exact follows_throw _ (.refl _)
  · exact follows_pure _

theorem follows_checkFrames (params : AnimParams) (sheet : Image) : Follows first second active start start
    (checkFrames params sheet) (checkFrames params sheet) fun _ => True := follows_checkSize _ _

theorem follows_needBase (i : Instr Operand) (position : Nat) (current : Option Image) :
    Follows first second active start start (needBase i position current) (needBase i position current)
      fun _ => True := by
  cases current with
  | none => exact follows_throw _ (.refl _)
  | some img => exact follows_pure _

/-- An animation that the trail has met shows the same in both settings once they are alike. -/
theorem follows_animate {i : Instr Operand} (spec : AnimSpec) (met : i ∈ start.trail.met)
    (animated : i.animSpec? = some spec) (sheet : Image)
    (shown : ∀ id, spec.texture = some id → first.provider.image? id = some sheet) :
    Follows first second active start start (pure (sheet.animate spec.params first.seconds))
      (pure (sheet.animate spec.params second.seconds)) fun _ => True := by
  refine fun memory tracks => ⟨fun alike => ?_, trivial, tracks⟩
  rw [(alike i met).still spec animated sheet shown]

end

section

variable {first second : Setting} {active : List (Nat × Nat)} {code : Array UInt8}
  {descend : Nat × Nat → Trail → Trail} {load other : Operand → Machine Image}

/-- Loading an operand that the trail has met follows it, pays what it owes, and gives the texture that it names. -/
def Loads (first second : Setting) (active : List (Nat × Nat)) (code : Array UInt8)
    (descend : Nat × Nat → Trail → Trail) (load other : Operand → Machine Image) : Prop :=
  ∀ (operand : Operand) (trail : Trail) (owed : List Nat), (∀ id ∈ operand.ids, id ∈ trail.ids) →
    Follows first second active ⟨trail, operand.ids ++ owed⟩ ⟨Bytecode.Reach.visit code descend trail operand, owed⟩
      (load operand) (other operand)
      fun img => ∀ id, operand.origin = .texture id → first.provider.image? id = some img

open Bytecode.Reach

theorem follows_placeInsets (deeper : ∀ range (trail : Trail), trail.Grows (descend range trail))
    (loads : Loads first second active code descend load other) (insets : List (Inset Operand)) :
    ∀ (trail : Trail) (owed : List Nat) (canvas : Image),
      (∀ id ∈ (insets.map (·.source)).flatMap Operand.ids, id ∈ trail.ids) → Follows first second active
      ⟨trail, (insets.map (·.source)).flatMap Operand.ids ++ owed⟩
      ⟨(insets.map (·.source)).foldl (visit code descend) trail, owed⟩
      (placeInsets load canvas insets) (placeInsets other canvas insets) fun _ => True := by
  induction insets with
  | nil => exact fun trail owed canvas _ => follows_pure _
  | cons inset rest ih =>
    intro trail owed canvas named
    rw [List.map_cons, List.flatMap_cons] at named ⊢
    rw [placeInsets, placeInsets, List.foldlM_cons, List.foldlM_cons, List.append_assoc, List.foldl_cons]
    have paid := loads inset.source trail ((rest.map (·.source)).flatMap Operand.ids ++ owed)
      fun id member => named id (List.mem_append_left _ member)
    refine Follows.bind (paid.bind (.refl _) fun img _ => follows_pure _) (.foldl (grows_visit deeper) _ _)
      fun laid _ => ih _ owed laid fun id member => ?_
    exact (grows_visit deeper trail inset.source).ids (named id (List.mem_append_right _ member))

/-- An instruction loads its operands in order. -/
theorem follows_step (deeper : ∀ range (trail : Trail), trail.Grows (descend range trail))
    (loads : Loads first second active code descend load other) (position : Nat) {i : Instr Operand}
    (current : Option Image) {trail : Trail} (met : i ∈ trail.met) (owed : List Nat) :
    Follows first second active ⟨trail, i.ids ++ owed⟩ ⟨i.sources.foldl (visit code descend) trail, owed⟩
      (step load first.seconds position i current) (step other second.seconds position i current)
      fun _ => True := by
  have grows : trail.Grows (i.sources.foldl (visit code descend) trail) := .foldl (grows_visit deeper) _ _
  have named : ∀ id ∈ i.ids, id ∈ trail.ids := fun id member => Trail.mem_ids.mpr ⟨i, met, member⟩
  have loadsOnly : ∀ operand, i.sources = [operand] → Follows first second active ⟨trail, i.ids ++ owed⟩
      ⟨i.sources.foldl (visit code descend) trail, owed⟩ (load operand) (other operand)
      fun img => ∀ id, operand.origin = .texture id → first.provider.image? id = some img := by
    intro operand only
    have ids : i.ids = operand.ids := by rw [Instr.ids, only, List.flatMap_singleton]
    rw [ids] at named
    rw [ids, only]
    exact loads operand trail owed named
  cases i with
  | texture s => exact (loadsOnly s rfl).weaken fun _ _ => trivial
  | fill w h c =>
    exact (follows_checkNonempty _ _ _ _).bind (.refl _) fun _ _ =>
      (follows_checkSize _ _).bind (.refl _) fun _ _ => follows_pure _
  | sheet s p =>
    refine (loadsOnly s rfl).bind (.refl _) fun sheet shown =>
      (follows_checkFrames p sheet).bind (.refl _) fun _ _ => ?_
    refine follows_animate ⟨s.texture?.map (·.2), p⟩ (grows _ met) rfl sheet fun id texture => shown id ?_
    exact Operand.origin_of_texture? texture
  | resize w h =>
    exact (follows_needBase _ _ _).bind (.refl _) fun img _ => (follows_checkNonempty _ _ _ _).bind (.refl _) fun _ _ =>
      (follows_checkSize _ _).bind (.refl _) fun _ _ => follows_pure _
  | animate p =>
    refine (follows_needBase _ _ _).bind (.refl _) fun sheet _ =>
      (follows_checkFrames p sheet).bind (.refl _) fun _ _ => ?_
    exact follows_animate ⟨none, p⟩ met rfl sheet fun _ texture => nomatch texture
  | overlay s =>
    refine (loadsOnly s rfl).bind (.refl _) fun top _ => ?_
    cases current with
    | none => exact follows_pure top
    | some img => exact follows_pure _
  | mask s | lowPart p s =>
    exact (follows_needBase _ _ _).bind grows fun img _ => (loadsOnly s rfl).bind (.refl _) fun _ _ => follows_pure _
  | combine w h insets =>
    exact (follows_checkNonempty _ _ _ _).bind grows fun _ _ => (follows_checkSize _ _).bind grows fun _ _ =>
      follows_placeInsets deeper loads insets trail owed _ named
  | _ => exact (follows_needBase _ _ _).bind (.refl _) fun img _ => follows_pure _

end

end Bake

end TextureLoom
