import TextureLoom.Proofs.Atlas.Isolating
import TextureLoom.Proofs.Cache.Indexing

set_option autoImplicit false

namespace TextureLoom

open Atlas (Alike Numbered World)

namespace Atlas.Alike

variable {a b c : Atlas} {id : Nat}

theorem trans (first : Alike id a b) (second : Alike id b c) : Alike id a c where
  slot := second.slot.trans first.slot
  status := second.status.trans first.status
  entry := second.entry.trans first.entry
  pending := second.pending.trans first.pending
  planned := second.planned.trans first.planned

theorem isRegistered (alike : Alike id a b) (registered : (a.slot id).isRegistered = true) :
    (b.slot id).isRegistered = true := alike.slot ▸ registered

end Atlas.Alike

namespace Cache

variable {c d : Cache} {r : Recipe} {id : Nat} {call : Call} {calls more : List Call}

/-- An atlas id belongs to no cached recipe. -/
def Foreign (c : Cache) (id : Nat) : Prop := ∀ r, c.id? r ≠ some id

/-- What the atlas has handed out and not got back is numbered. -/
def Numbers (c : Cache) : Prop := ∃ used, Numbered used c.atlas

theorem numbers_step (linked : c.Linked) (numbers : c.Numbers) (call : Call) : (c.step call).Numbers := by
  obtain ⟨used, numbered⟩ := numbers
  obtain ⟨w, actions, isAtlas, made⟩ := exists_actions c call
  rw [← isAtlas] at numbered
  rw [Numbers, ← made]
  exact ⟨_, numbered.run (isAtlas ▸ linked.orderly) actions⟩

theorem numbers_run (linked : c.Linked) (numbers : c.Numbers) (run : Run c calls d) : d.Numbers := by
  induction run with
  | done c => exact numbers
  | more allowed _ ih => exact ih (linked_step linked allowed) (numbers_step linked numbers _)

theorem numbers_of_starts (starts : c.Starts) : c.Numbers := by
  obtain ⟨_, _, _, _, actions, created, rfl⟩ := starts
  exact ⟨_, (Numbered.of_create created).run (Atlas.orderly_of_create created) actions⟩

/-- When no id is left, the atlas stays as it is. -/
theorem Numbers.register_of_overflow (numbers : c.Numbers) (linked : c.Linked)
    (overflow : c.atlas.register.1 = Atlas.overflowId) : c.atlas.register.2 = c.atlas := by
  obtain ⟨_, numbered⟩ := numbers
  obtain ⟨_, registry⟩ := linked.orderly.registry
  rcases numbered.register registry.slots_size with ⟨full, _⟩ | ⟨⟨usable, _⟩, _⟩
  · rw [full]
  · rw [overflow, Atlas.Config.reservedCount] at usable
    exact absurd usable (Nat.not_succ_le_zero _)

theorem alike_refresh (foreign : c.Foreign id) (ids : List Nat) (r : Recipe) :
    Alike id c.atlas (refresh (c, ids) r).1.atlas := by
  rw [refresh]
  cases cached : c.id? r with
  | none => exact .refl id c.atlas
  | some own =>
    have distinct : id ≠ own := by
      rintro rfl
      exact foreign r cached
    exact .set c.atlas _ _ _ _ distinct

theorem id?_refresh (ids : List Nat) (r s : Recipe) : (refresh (c, ids) r).1.id? s = c.id? s := by
  rw [refresh]
  cases c.id? r <;> rfl

theorem alike_rebake (foreign : c.Foreign id) : Alike id c.atlas c.rebake.1.atlas := by
  have baked : Alike id c.atlas c.rebake.1.atlas ∧ c.rebake.1.Foreign id := by
    refine List.foldlRecOn (motive := fun state => Alike id c.atlas state.1.atlas ∧ state.1.Foreign id) c.stale refresh
      ?_ ?_
    · exact ⟨.refl id c.atlas, foreign⟩
    · rintro ⟨before, ids⟩ ⟨alike, still⟩ r _
      refine ⟨alike.trans (alike_refresh still ids r), fun s cached => still s ?_⟩
      rwa [id?_refresh] at cached
  exact baked.1

/-- An id that is foreign before and behind a call on the cache itself is left alone. -/
theorem alike_step (linked : c.Linked) (numbers : c.Numbers) (own : ∀ around action, call ≠ .direct around action)
    (before : c.Foreign id) (behind : (c.step call).Foreign id) : Alike id c.atlas (c.step call).atlas := by
  cases call with
  | get r =>
    rw [step] at behind ⊢
    rcases get_cases c r with ⟨_, _, same⟩ | ⟨_, ⟨overflow, same⟩ | ⟨left, same⟩⟩ <;> rw [same] at behind ⊢
    · exact .refl id c.atlas
    · dsimp only
      rw [numbers.register_of_overflow linked overflow]
      exact .refl id c.atlas
    · have distinct : id ≠ c.atlas.register.1 := by
        rintro rfl
        exact behind r (by rw [id?_enter, if_pos rfl])
      rcases Alike.register c.atlas with full | others
      · exact absurd (congrArg Prod.fst full) left
      · exact others id distinct
  | free r =>
    cases freed : c.id? r with
    | none =>
      rw [step, free_of_none freed]
      exact .refl id c.atlas
    | some gone =>
      have distinct : id ≠ gone := by
        rintro rfl
        exact before r freed
      rw [step, free_of_id? freed]
      exact .remove c.atlas distinct
  | rebake => exact alike_rebake before
  | setTexture _ _ | freeTexture _ | animate _ => exact .refl id c.atlas
  | direct around action => exact absurd rfl (own around action)

/-- An id in use that is foreign stays so: no recipe is given it. -/
theorem foreign_step (linked : c.Linked) (registered : (c.atlas.slot id).isRegistered = true) (foreign : c.Foreign id)
    (call : Call) : (c.step call).Foreign id := by
  intro r cached
  cases call with
  | get s =>
    rw [step] at cached
    rcases get_cases c s with ⟨_, _, same⟩ | ⟨_, ⟨_, same⟩ | ⟨left, same⟩⟩ <;> rw [same] at cached
    · exact foreign r cached
    · exact foreign r cached
    · rw [id?_enter] at cached
      split at cached
      · cases cached
        rw [(linked.handsOut left).unregistered] at registered
        cases registered
      · exact foreign r cached
  | free s => exact foreign r (id?_free cached).2
  | rebake =>
    rw [step, id?_rebake linked] at cached
    exact foreign r cached
  | setTexture _ _ | freeTexture _ | animate _ | direct _ _ => exact foreign r cached

theorem allows_of_own (own : ∀ around action, call ≠ .direct around action) : c.Allows call := by
  cases call with
  | direct around action => exact absurd rfl (own around action)
  | _ => exact trivial

theorem own_cons (own : ∀ around action, Call.direct around action ∉ call :: more) :
    (∀ around action, call ≠ .direct around action) ∧ ∀ around action, Call.direct around action ∉ more :=
  ⟨fun around action same => own around action (same ▸ List.mem_cons_self),
    fun around action member => own around action (List.mem_cons_of_mem call member)⟩

/-- An id that is foreign all along is left alone. -/
theorem alike_foldl (linked : c.Linked) (numbers : c.Numbers) (own : ∀ around action, Call.direct around action ∉ more)
    (foreign : ∀ count, ((more.take count).foldl step c).Foreign id) :
    Alike id c.atlas (more.foldl step c).atlas := by
  induction more generalizing c with
  | nil => exact .refl id c.atlas
  | cons call rest ih =>
    obtain ⟨ownCall, ownRest⟩ := own_cons own
    have first := alike_step linked numbers ownCall (foreign 0) (foreign 1)
    exact first.trans (ih (linked_step linked (allows_of_own ownCall)) (numbers_step linked numbers call) ownRest
      fun count => foreign (count + 1))

/-- An id in use that is foreign stays both. -/
theorem foreign_foldl (linked : c.Linked) (numbers : c.Numbers)
    (own : ∀ around action, Call.direct around action ∉ more) (registered : (c.atlas.slot id).isRegistered = true)
    (foreign : c.Foreign id) : (more.foldl step c).Foreign id := by
  induction more generalizing c with
  | nil => exact foreign
  | cons call rest ih =>
    obtain ⟨ownCall, ownRest⟩ := own_cons own
    have still := foreign_step linked registered foreign call
    have alike := alike_step linked numbers ownCall foreign still
    exact ih (linked_step linked (allows_of_own ownCall)) (numbers_step linked numbers call) ownRest
      (alike.isRegistered registered) still

/-- Whatever is done with a cache itself leaves the atlas ids alone that belong to no recipe of it, for as long as they
do. An id in use never comes to belong to one, so the ids that others have got from the atlas are theirs until they
give them back. No picture is stored for a foreign id, and freeing what is not cached changes nothing. -/
theorem spares_foreign (starts : c.Starts) (run : Run c calls d)
    (own : ∀ around action, Call.direct around action ∉ more) :
    (∀ id, (∀ count, ((more.take count).foldl step d).Foreign id) →
      Alike id d.atlas (more.foldl step d).atlas) ∧
    (∀ id, (d.atlas.slot id).isRegistered = true → d.Foreign id →
      (more.foldl step d).Foreign id ∧ Alike id d.atlas (more.foldl step d).atlas) ∧
    (∀ id, (more.foldl step d).Foreign id → (more.foldl step d).baked.get? id = none) ∧
    ∀ r, (more.foldl step d).id? r = none → (more.foldl step d).free r = (more.foldl step d, .ok ()) := by
  have linked : d.Linked := linked_run (linked_of_starts starts) run
  have numbers : d.Numbers := numbers_run (linked_of_starts starts) (numbers_of_starts starts) run
  have indexed : d.Indexed := indexed_run (indexed_of_starts starts) run
  refine ⟨fun id => alike_foldl linked numbers own, fun id registered foreign => ?_, fun id foreign => ?_,
    fun r unknown => ?_⟩
  · have always (count : Nat) : ((more.take count).foldl step d).Foreign id :=
      foreign_foldl linked numbers (fun around action member => own around action (List.mem_of_mem_take member))
        registered foreign
    exact ⟨foreign_foldl linked numbers own registered foreign, alike_foldl linked numbers own always⟩
  · have last := indexed_run indexed (run_foldl d own)
    rw [← Option.not_isSome_iff_eq_none]
    intro stored
    obtain ⟨r, cached⟩ := last.baked id stored
    exact foreign r cached
  · rw [free, unknown]

/-- An id has been handed out and drawn before the cache was made. -/
def shared : Cache :=
  ofAtlas ([Atlas.Action.register, .set 2 1 1 0 ⟨#[200, 100, 50, 255]⟩].foldl World.step .spare).atlas

/-- A texture comes under the same number, and a recipe that does not read it. -/
def sharing : List Call :=
  [.get plain, .setTexture 2 ⟨1, 1, #[0xff0000ff]⟩, .setTexture 5 ⟨1, 1, #[0xff204060]⟩, .rebake]

theorem starts_shared : shared.Starts := by
  refine ⟨{ maxTextureId := 4, maxLayers := 1, padding := 1, stagingBytes := 168 }, .create 1,
    some World.sample.staging, .spare, _, ?_, rfl⟩
  refine World.create_of_unlimited rfl ?_ rfl
  simp [Atlas.Staging.size, World.sample, ByteArray.size, Atlas.Config.tableBytes, Atlas.entryBytes]

theorem spares_foreign_shared : shared.Starts ∧ (shared.atlas.slot 2).texture.isSome ∧
    (sharing.foldl step shared).id? plain = some 3 ∧ (sharing.foldl step shared).Foreign 2 ∧
    Alike 2 shared.atlas (sharing.foldl step shared).atlas ∧ (sharing.foldl step shared).baked.get? 2 = none ∧
    (sharing.foldl step shared).free turning = (sharing.foldl step shared, .ok ()) := by
  have own : ∀ around action, Call.direct around action ∉ sharing := by simp [sharing]
  have run : Run shared (sharing.take 3) ((sharing.take 3).foldl step shared) := run_foldl _ (by simp [sharing])
  have baked (r : Recipe) : (sharing.foldl step shared).id? r = ((sharing.take 3).foldl step shared).id? r :=
    id?_rebake (linked_run (linked_of_starts starts_shared) run) r
  have cached : ((sharing.take 3).foldl step shared).id? plain = some 3 ∧
      ((sharing.take 3).foldl step shared).id? turning = none := by decide +kernel
  obtain ⟨-, inUse, unbaked, unknown⟩ := spares_foreign starts_shared (.done shared) own
  obtain ⟨foreign, alike⟩ := inUse 2 (by decide +kernel) nofun
  exact ⟨starts_shared, by decide +kernel, (baked plain).trans cached.1, foreign, alike, unbaked 2 foreign,
    unknown turning ((baked turning).trans cached.2)⟩

end Cache

end TextureLoom
