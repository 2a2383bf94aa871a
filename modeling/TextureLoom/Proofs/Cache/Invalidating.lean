import Mathlib.Data.List.Induction
import TextureLoom.Proofs.Cache.Indexing

set_option autoImplicit false

namespace TextureLoom

namespace Recipe

theorem bytesLe_iff {as bs : List UInt8} : bytesLe as bs = true ↔ as ≤ bs := by
  induction as generalizing bs with
  | nil => simp [bytesLe]
  | cons a as ih =>
    cases bs with
    | nil => simp [bytesLe]
    | cons b bs => simp [bytesLe, ih, List.cons_le_cons_iff]

variable {a b c : Recipe}

theorem le_iff : le a b = true ↔ a.digest < b.digest ∨ a.digest = b.digest ∧ a.code.toList ≤ b.code.toList := by
  simp [le, bytesLe_iff]

theorem le_total (a b : Recipe) : le a b || le b a := by
  rw [Bool.or_eq_true, le_iff, le_iff]
  by_cases same : a.digest = b.digest
  · rcases List.le_total a.code.toList b.code.toList with less | more
    · exact .inl (.inr ⟨same, less⟩)
    · exact .inr (.inr ⟨same.symm, more⟩)
  · exact (UInt64.lt_or_lt_of_ne same).imp .inl .inl

theorem le_trans (first : le a b = true) (second : le b c = true) : le a c = true := by
  rw [le_iff] at first second ⊢
  rcases first with first | ⟨same, less⟩
  · rcases second with second | ⟨same, _⟩
    · exact .inl (UInt64.lt_trans first second)
    · exact .inl (same ▸ first)
  · rw [same]
    exact second.imp_right fun ⟨alike, more⟩ => ⟨alike, List.le_trans less more⟩

theorem le_antisymm (first : le a b = true) (second : le b a = true) : a = b := by
  rw [le_iff] at first second
  rcases first with first | ⟨digest, less⟩
  · rcases second with second | ⟨same, _⟩
    · exact absurd second (UInt64.lt_asymm first)
    · exact absurd first (same ▸ UInt64.lt_irrefl a.digest)
  · rcases second with second | ⟨_, more⟩
    · exact absurd second (digest ▸ UInt64.lt_irrefl b.digest)
    · have code : a.code = b.code := Array.toList_inj.mp (List.le_antisymm less more)
      cases a
      cases b
      exact congr (congrArg Recipe.mk digest) code

end Recipe

theorem Atlas.edits_set (a : Atlas) (id width height pitch : Nat) (bytes : ByteArray) :
    Atlas.Edits id a (a.set id width height pitch bytes).1 := by
  have sets := Atlas.sets_set a id width height pitch bytes
  generalize a.set id width height pitch bytes = result at sets
  cases sets with
  | ignored _ | refused _ => exact .refl id a
  | rejected _ registered => exact (Atlas.empties_reject registered).edits
  | loaded t _ registered _ => exact (Atlas.loads_load registered t).edits

namespace Cache

variable {c d : Cache} {r s : Recipe} {id : Nat} {call : Call}

theorem nodup_stale (c : Cache) : c.stale.Nodup :=
  nodup_eraseReps (fun _ _ => Recipe.le_antisymm)
    (@List.pairwise_mergeSort _ Recipe.le (fun _ _ _ => Recipe.le_trans) Recipe.le_total _)

/-- A recipe has changed since the last bake, or a texture that it depends on has. -/
def Awaits (c : Cache) (r : Recipe) : Prop :=
  (∃ texture ∈ c.changedTextures, texture ∈ r.dependencies) ∨ r ∈ c.changedRecipes

/-- Only what is cached is baked again. -/
theorem Indexed.mem_stale_iff (indexed : c.Indexed) : r ∈ c.stale ↔ c.Holds r ∧ c.Awaits r := by
  have reads : ∀ texture, Reads c.readers texture r ↔ c.Holds r ∧ texture ∈ r.dependencies :=
    fun texture => (indexed.readers texture).mem_getD
  simp only [mem_stale, reads]
  constructor
  · rintro (⟨texture, changed, holds, depends⟩ | changed)
    · exact ⟨holds, .inl ⟨texture, changed, depends⟩⟩
    · exact ⟨indexed.changed r changed, .inr changed⟩
  · rintro ⟨holds, ⟨texture, changed, depends⟩ | changed⟩
    · exact .inl ⟨texture, changed, holds, depends⟩
    · exact .inr changed

theorem refresh_eq (c : Cache) (ids : List Nat) (r : Recipe) : ∃ atlas baked,
    refresh (c, ids) r = ({ c with atlas := atlas, baked := baked }, ids ++ (c.id? r).toList) := by
  rw [refresh]
  cases c.id? r with
  | none => exact ⟨c.atlas, c.baked, by simp⟩
  | some id => exact ⟨_, _, rfl⟩

theorem foldl_refresh (rs : List Recipe) (c : Cache) (ids : List Nat) : ∃ atlas baked,
    rs.foldl refresh (c, ids) = ({ c with atlas := atlas, baked := baked }, ids ++ rs.filterMap c.id?) := by
  induction rs generalizing c ids with
  | nil => exact ⟨c.atlas, c.baked, by simp⟩
  | cons r rest ih =>
    obtain ⟨atlas, baked, first⟩ := refresh_eq c ids r
    obtain ⟨atlas, baked, later⟩ := ih { c with atlas := atlas, baked := baked } (ids ++ (c.id? r).toList)
    refine ⟨atlas, baked, ?_⟩
    rw [List.foldl_cons, first, later, List.append_assoc, List.filterMap_cons]
    cases cached : c.id? r <;> rfl

/-- A bake clears what waits for it, and tells the ids of the recipes that were baked. -/
theorem rebake_eq (c : Cache) : ∃ atlas baked, c.rebake =
    ({ c with atlas := atlas, baked := baked, changedTextures := [], changedRecipes := [] }, c.stale.filterMap c.id?) :=
  foldl_refresh c.stale { c with changedTextures := [], changedRecipes := [] } []

theorem stale_rebake (c : Cache) : c.rebake.1.stale = [] := by
  obtain ⟨atlas, baked, same⟩ := rebake_eq c
  rw [same, List.eq_nil_iff_forall_not_mem]
  intro r stale
  rw [mem_stale] at stale
  simp at stale

theorem mem_rebake : id ∈ c.rebake.2 ↔ ∃ r ∈ c.stale, c.id? r = some id := by
  obtain ⟨_, _, same⟩ := rebake_eq c
  rw [same, List.mem_filterMap]

theorem nodup_rebake (linked : c.Linked) : c.rebake.2.Nodup := by
  obtain ⟨_, _, same⟩ := rebake_eq c
  rw [same]
  refine List.pairwise_filterMap.mpr ((nodup_stale c).imp fun different id first other second => ?_)
  rintro rfl
  exact different (linked.distinct _ _ id first second)

/-- A call makes a recipe wait for a bake: it enters the recipe, it moves one of its animations, or it changes a texture
that the recipe depends on. -/
def Asks (c : Cache) (r : Recipe) : Call → Prop
  | .get s => s = r ∧ ¬c.Holds r ∧ (c.get s).2.Holds r
  | .animate seconds => ∃ a, c.animated.get? r = some a ∧ (a.advance seconds c.sheetSize?).1 = true
  | .setTexture texture _ | .freeTexture texture => texture ∈ r.dependencies
  | .free _ | .rebake | .direct _ _ => False

/-- Since the last bake, one of the calls made a recipe wait for the next. -/
def Due (c : Cache) (calls : List Call) (r : Recipe) : Prop :=
  ∃ before call since, calls = before ++ call :: since ∧ (before.foldl step c).Asks r call ∧ Call.rebake ∉ since

theorem due_append (calls : List Call) : Due c (calls ++ [call]) r ↔
    call ≠ .rebake ∧ Due c calls r ∨ (calls.foldl step c).Asks r call := by
  constructor
  · rintro ⟨before, asking, since, split, asks, unbaked⟩
    rcases List.eq_nil_or_concat since with rfl | ⟨since, last, rfl⟩
    · obtain ⟨rfl, same⟩ := List.append_inj' split rfl
      cases same
      exact .inr asks
    · rw [List.concat_eq_append] at split unbaked
      rw [← List.cons_append, ← List.append_assoc] at split
      obtain ⟨rfl, same⟩ := List.append_inj' split rfl
      cases same
      rw [List.mem_append, not_or] at unbaked
      exact .inl ⟨fun baked => unbaked.2 (baked ▸ List.mem_cons_self), before, asking, since, rfl, asks, unbaked.1⟩
  · rintro (⟨other, before, asking, since, rfl, asks, unbaked⟩ | asks)
    · refine ⟨before, asking, since ++ [call], by simp, asks, ?_⟩
      simp [unbaked, Ne.symm other]
    · exact ⟨calls, call, [], rfl, asks, List.not_mem_nil⟩

/-- Only a call that enters a recipe makes it cached, and then it awaits a bake. -/
theorem asks_of_new (new : ¬c.Holds r) (holds : (c.step call).Holds r) :
    c.Asks r call ∧ (c.step call).Awaits r := by
  cases call with
  | get s =>
    rcases get_cases c s with ⟨_, _, same⟩ | ⟨_, ⟨_, same⟩ | ⟨_, same⟩⟩
    · rw [step, same] at holds
      exact absurd holds new
    · rw [step, same] at holds
      exact absurd holds new
    · have entered : r = s := by
        rw [step, same] at holds
        exact (holds_enter.mp holds).resolve_left new
      refine ⟨⟨entered.symm, new, holds⟩, .inr ?_⟩
      rw [step, same]
      exact mem_changedRecipes_enter.mpr (.inr entered)
  | free s => exact absurd (holds_free.mp holds).1 new
  | rebake =>
    obtain ⟨_, _, same⟩ := rebake_eq c
    rw [step, same] at holds
    exact absurd holds new
  | setTexture _ _ | freeTexture _ | animate _ | direct _ _ => exact absurd holds new

theorem awaits_get (held : c.Holds r) : (c.get s).2.Awaits r ↔ c.Awaits r := by
  rcases get_cases c s with ⟨_, _, same⟩ | ⟨new, ⟨_, same⟩ | ⟨_, same⟩⟩
  · rw [same]
  · rw [same]
    rfl
  · have different : r ≠ s := by
      rintro rfl
      obtain ⟨_, cached⟩ := held
      cases new.symm.trans cached
    rw [same]
    refine or_congr_right ?_
    rw [mem_changedRecipes_enter, or_iff_left different]

theorem awaits_free (different : r ≠ s) : (c.free s).1.Awaits r ↔ c.Awaits r := by
  cases freed : c.id? s with
  | none => rw [free_of_none freed]
  | some gone =>
    rw [free_of_id? freed]
    refine or_congr_right ?_
    rw [List.mem_filter, and_iff_left (decide_eq_true different)]

theorem awaits_of_changed {texture : Nat} (textures : d.changedTextures = c.changedTextures ++ [texture])
    (recipes : d.changedRecipes = c.changedRecipes) : d.Awaits r ↔ c.Awaits r ∨ texture ∈ r.dependencies := by
  simp only [Awaits, textures, recipes, List.mem_append, List.mem_singleton, or_and_right, exists_or, exists_eq_left]
  exact or_right_comm

theorem not_awaits_rebake (c : Cache) (r : Recipe) : ¬c.rebake.1.Awaits r := by
  obtain ⟨_, _, same⟩ := rebake_eq c
  rw [same]
  rintro (⟨_, changed, _⟩ | changed)
  · cases changed
  · cases changed

/-- Of what stays cached, a bake leaves nothing waiting, and any other call lets just those wait that did before or that
it asks for. -/
theorem awaits_step (indexed : c.Indexed) (held : c.Holds r) (kept : (c.step call).Holds r) :
    (c.step call).Awaits r ↔ call ≠ .rebake ∧ c.Awaits r ∨ c.Asks r call := by
  cases call with
  | get s =>
    have others : ¬c.Asks r (.get s) := fun asks => asks.2.1 held
    simp only [others, or_false, ne_eq, reduceCtorEq, not_false_eq_true, true_and]
    exact awaits_get held
  | free s =>
    simp only [Asks, or_false, ne_eq, reduceCtorEq, not_false_eq_true, true_and]
    exact awaits_free (holds_free.mp kept).2
  | animate seconds =>
    simp only [Asks, ne_eq, reduceCtorEq, not_false_eq_true, true_and, step, Awaits,
      mem_changedRecipes_animate_iff indexed.once, or_assoc]
    rfl
  | rebake =>
    simp only [Asks, or_false, ne_eq, not_true_eq_false, false_and, iff_false]
    exact not_awaits_rebake c r
  | setTexture texture _ | freeTexture texture =>
    simp only [Asks, ne_eq, reduceCtorEq, not_false_eq_true, true_and]
    exact awaits_of_changed rfl rfl
  | direct _ _ =>
    simp only [Asks, or_false, ne_eq, reduceCtorEq, not_false_eq_true, true_and]
    rfl

theorem Run.eq_foldl {calls : List Call} (run : Run c calls d) : d = calls.foldl step c := by
  induction run with
  | done c => rfl
  | more _ _ ih => exact ih

/-- After a run, those cached recipes are to be baked again for which a call has asked since the last bake. -/
theorem awaits_iff_due {calls : List Call} (indexed : c.Indexed) (clean : ∀ r, ¬c.Awaits r) (run : Run c calls d)
    (holds : d.Holds r) : d.Awaits r ↔ Due c calls r := by
  induction calls using List.reverseRecOn generalizing d with
  | nil =>
    cases run
    refine ⟨fun awaits => absurd awaits (clean r), ?_⟩
    rintro ⟨before, _, _, split, _⟩
    cases before <;> cases split
  | append_singleton calls call ih =>
    obtain ⟨before, earlier, _, rfl⟩ := run.last
    rw [due_append, ← earlier.eq_foldl]
    by_cases held : before.Holds r
    · rw [awaits_step (indexed_run indexed earlier) held holds, ih earlier held]
    · -- A recipe that was not cached awaits its first bake, whatever became of its textures before.
      obtain ⟨asks, awaits⟩ := asks_of_new held holds
      exact ⟨fun _ => .inr asks, fun _ => awaits⟩

/-- What is stored for an id, and what the atlas has of it, are as before. -/
def Spares (id : Nat) (c d : Cache) : Prop := d.baked.get? id = c.baked.get? id ∧ d.atlas.slot id = c.atlas.slot id

theorem spares_refresh (ids : List Nat) (other : c.id? r ≠ some id) : Spares id c (refresh (c, ids) r).1 := by
  rw [refresh]
  cases cached : c.id? r with
  | none => exact ⟨rfl, rfl⟩
  | some own =>
    have different : id ≠ own := by
      rintro rfl
      exact other cached
    exact ⟨Table.get?_insert_of_ne _ _ different, (Atlas.edits_set _ own _ _ _ _).slotOf id different⟩

theorem spares_foldl (rs : List Recipe) (ids : List Nat) (others : ∀ r ∈ rs, c.id? r ≠ some id) :
    Spares id c (rs.foldl refresh (c, ids)).1 := by
  induction rs generalizing c ids with
  | nil => exact ⟨rfl, rfl⟩
  | cons r rest ih =>
    obtain ⟨baked, slot⟩ := spares_refresh ids (others r List.mem_cons_self)
    obtain ⟨atlas, table, first⟩ := refresh_eq c ids r
    rw [List.foldl_cons]
    rw [first] at baked slot ⊢
    have later := ih (c := { c with atlas := atlas, baked := table }) (ids ++ (c.id? r).toList) fun s member =>
      others s (List.mem_cons_of_mem r member)
    exact ⟨later.1.trans baked, later.2.trans slot⟩

/-- A bake touches no id but those that it tells. -/
theorem spares_rebake (untold : id ∉ c.rebake.2) : Spares id c c.rebake.1 :=
  spares_foldl (c := { c with changedTextures := [], changedRecipes := [] }) c.stale [] fun r stale cached =>
    untold (mem_rebake.mpr ⟨r, stale, cached⟩)

/-- Whatever is done with a cache, a bake tells, each once, the ids of those cached recipes that a call has made wait
for it since the last one. It stores their pictures and touches nothing else, and a second bake has nothing to do. -/
theorem rebakes_due {calls : List Call} (starts : c.Starts) (run : Run c calls d) :
    d.rebake.2.Nodup ∧ (∀ id, id ∈ d.rebake.2 ↔ ∃ r, d.id? r = some id ∧ Due c calls r) ∧
      (∀ r id, d.id? r = some id → Due c calls r → d.rebake.1.baked.get? id = some (d.generate r)) ∧
      (∀ id, id ∉ d.rebake.2 → Spares id d d.rebake.1) ∧ d.rebake.1.rebake.2 = [] := by
  have linked : d.Linked := linked_run (linked_of_starts starts) run
  have indexed : d.Indexed := indexed_run (indexed_of_starts starts) run
  have clean : ∀ r, ¬c.Awaits r := by
    obtain ⟨_, _, _, _, _, _, rfl⟩ := starts
    rintro r (⟨_, changed, _⟩ | changed) <;> cases changed
  have stale : ∀ r id, d.id? r = some id → (r ∈ d.stale ↔ Due c calls r) := by
    intro r id cached
    have holds : d.Holds r := ⟨id, cached⟩
    rw [indexed.mem_stale_iff, awaits_iff_due (indexed_of_starts starts) clean run holds, and_iff_right holds]
  refine ⟨nodup_rebake linked, fun id => ?_, fun r id cached due => ?_, fun id => spares_rebake, ?_⟩
  · rw [mem_rebake]
    constructor
    · rintro ⟨r, waits, cached⟩
      exact ⟨r, cached, (stale r id cached).mp waits⟩
    · rintro ⟨r, cached, due⟩
      exact ⟨r, (stale r id cached).mpr due, cached⟩
  · rw [(rebaked_rebake linked).stored r id cached, if_pos ((stale r id cached).mpr due)]
    exact congrArg some (generate_of_eq rfl rfl)
  · obtain ⟨_, _, same⟩ := rebake_eq d.rebake.1
    rw [same, stale_rebake]
    rfl

/-- A recipe that shows another texture than `plain`. -/
def aside : Recipe :=
  .ofCode ((Bytecode.Instr.texture (Bytecode.Origin.texture 6)).encode ++ [Bytecode.finishCode]).toArray

/-- The texture of one of two recipes changes. -/
def recolouring : List Call :=
  [.get plain, .get aside, .rebake, .setTexture 5 ⟨1, 2, #[0xff204060, 0xff80a0c0]⟩]

/-- The cache after so many of the calls. -/
def recoloured (count : Nat) : Cache := (recolouring.take count).foldl step roomy

theorem rebakes_due_recolouring : (recoloured 0).Starts ∧ Run (recoloured 0) recolouring (recoloured 4) ∧
    (recoloured 4).id? plain = some 2 ∧ (recoloured 4).id? aside = some 3 ∧ 2 ∈ (recoloured 4).rebake.2 ∧
      3 ∉ (recoloured 4).rebake.2 ∧ Spares 3 (recoloured 4) (recoloured 4).rebake.1 := by
  have starts : (recoloured 0).Starts := starts_roomy
  have run : Run (recoloured 0) recolouring (recoloured 4) := run_foldl _ (by simp [recolouring])
  have early : Run (recoloured 0) (recolouring.take 2) (recoloured 2) := run_foldl _ (by simp [recolouring])
  have late : Run (recoloured 2) (recolouring.drop 2) (recoloured 4) := run_foldl _ (by simp [recolouring])
  have linked : (recoloured 2).Linked := linked_run (linked_of_starts starts) early
  have first : (recoloured 4).id? plain = some 2 := id?_run linked late (by simp [recolouring]) (by decide +kernel)
  have second : (recoloured 4).id? aside = some 3 := id?_run linked late (by simp [recolouring]) (by decide +kernel)
  obtain ⟨_, told, _, spared, _⟩ := rebakes_due starts run
  have due : Due (recoloured 0) recolouring plain :=
    (due_append (recolouring.take 3)).mpr (.inr (show 5 ∈ plain.dependencies by decide +kernel))
  have untold : 3 ∉ (recoloured 4).rebake.2 := by
    intro member
    obtain ⟨r, cached, due⟩ := (told 3).mp member
    cases (linked_run linked late).distinct r aside 3 cached second
    rcases (due_append (recolouring.take 3)).mp due with ⟨_, before⟩ | depends
    · rcases (due_append (recolouring.take 2)).mp before with ⟨other, _⟩ | asks
      · exact other rfl
      · exact asks
    · exact absurd depends (show 5 ∉ aside.dependencies by decide +kernel)
  exact ⟨starts, run, first, second, (told 2).mpr ⟨plain, first, due⟩, untold, spared 3 untold⟩

end Cache

end TextureLoom
