import TextureLoom.Proofs.Cache.Animating

set_option autoImplicit false

namespace TextureLoom

theorem Recipe.nodup_dependencies (r : Recipe) : r.dependencies.Nodup := nodup_eraseDups _

theorem Animation.isSome_start? {specs : List Bytecode.AnimSpec} : (start? specs).isSome ↔ specs ≠ [] := by
  cases specs <;> simp [start?]

namespace Cache

variable {c d : Cache} {r s : Recipe} {id texture other : Nat} {readers : Table Nat (List Recipe)}
  {reading : Recipe → Prop}

/-- A recipe is cached. -/
def Holds (c : Cache) (r : Recipe) : Prop := ∃ id, c.id? r = some id

/-- What is found for a texture in a table of readers: a list of the recipes that read it, each once, or nothing when no
recipe does. -/
inductive Lists (reading : Recipe → Prop) : Option (List Recipe) → Prop where
  | none (nobody : ∀ r, ¬reading r) : Lists reading none
  | some {rs : List Recipe} (somebody : rs ≠ []) (once : rs.Nodup) (members : ∀ r, r ∈ rs ↔ reading r) :
      Lists reading (some rs)

theorem Lists.congr {now : Recipe → Prop} {found : Option (List Recipe)} (lists : Lists reading found)
    (same : ∀ r, reading r ↔ now r) : Lists now found := by
  rwa [funext fun r => propext (same r)] at lists

theorem Lists.mem_getD {found : Option (List Recipe)} (lists : Lists reading found) : r ∈ found.getD [] ↔ reading r := by
  cases lists with
  | none nobody => simp [nobody r]
  | some _ _ members => exact members r

theorem get?_addReader_of_ne (different : other ≠ texture) :
    (addReader s readers texture).get? other = readers.get? other := Table.get?_insert_of_ne _ _ different

theorem get?_dropReader_of_ne (different : other ≠ texture) :
    (dropReader s readers texture).get? other = readers.get? other := by
  unfold dropReader
  split
  · rfl
  · dsimp only
    split
    · exact Table.get?_erase_of_ne _ different
    · exact Table.get?_insert_of_ne _ _ different

theorem lists_addReader (lists : Lists reading (readers.get? texture)) (new : ¬reading s) :
    Lists (fun r => reading r ∨ r = s) ((addReader s readers texture).get? texture) := by
  rw [addReader, Table.get?_insert_self]
  generalize readers.get? texture = found at lists
  cases lists with
  | none nobody => exact .some (by simp) (by simp) fun r => by simp [nobody r]
  | @some rs _ once members =>
    refine .some (by simp) ?_ fun r => by simp [members r]
    have absent : ∀ r ∈ rs, ∀ t ∈ [s], r ≠ t := by
      rintro r member t last rfl
      exact new (List.mem_singleton.mp last ▸ (members r).mp member)
    exact List.nodup_append.mpr ⟨once, by simp, absent⟩

theorem lists_dropReader (lists : Lists reading (readers.get? texture)) :
    Lists (fun r => reading r ∧ r ≠ s) ((dropReader s readers texture).get? texture) := by
  unfold dropReader
  generalize isFound : readers.get? texture = found at lists
  cases lists with
  | none nobody =>
    dsimp only
    rw [isFound]
    exact .none fun r => by simp [nobody r]
  | @some rs _ once members =>
    have left : ∀ r, r ∈ rs.erase s ↔ reading r ∧ r ≠ s := by
      intro r
      rw [once.mem_erase_iff, members r, and_comm]
    dsimp only
    split
    · rename_i nobody
      rw [Table.get?_erase_self]
      rw [List.isEmpty_iff] at nobody
      refine .none fun r reads => ?_
      rw [← left r, nobody] at reads
      cases reads
    · rename_i somebody
      rw [Table.get?_insert_self]
      rw [List.isEmpty_iff] at somebody
      exact .some somebody (once.erase s) left

theorem get?_foldl_addReader {textures : List Nat} (others : other ∉ textures) :
    (textures.foldl (addReader s) readers).get? other = readers.get? other := by
  induction textures generalizing readers with
  | nil => rfl
  | cons first rest ih =>
    rw [List.mem_cons, not_or] at others
    rw [List.foldl_cons, ih others.2, get?_addReader_of_ne others.1]

theorem lists_foldl_addReader {textures : List Nat} (each : textures.Nodup)
    (lists : Lists reading (readers.get? texture)) (new : ¬reading s) :
    Lists (fun r => reading r ∨ texture ∈ textures ∧ r = s) ((textures.foldl (addReader s) readers).get? texture) := by
  induction textures generalizing readers with
  | nil => exact lists.congr fun r => by simp
  | cons first rest ih =>
    obtain ⟨absent, each⟩ := List.nodup_cons.mp each
    rw [List.foldl_cons]
    by_cases same : texture = first
    · subst same
      rw [get?_foldl_addReader absent]
      exact (lists_addReader lists new).congr fun r => by simp
    · rw [← get?_addReader_of_ne (s := s) same] at lists
      exact (ih each lists).congr fun r => by simp [same]

theorem lists_foldl_dropReader {textures : List Nat} (lists : Lists reading (readers.get? texture)) :
    Lists (fun r => reading r ∧ ¬(texture ∈ textures ∧ r = s))
      ((textures.foldl (dropReader s) readers).get? texture) := by
  induction textures generalizing readers reading with
  | nil => exact lists.congr fun r => by simp
  | cons first rest ih =>
    rw [List.foldl_cons]
    by_cases same : texture = first
    · subst same
      refine (ih (lists_dropReader lists)).congr fun r => ?_
      simp only [List.mem_cons, true_or, true_and]
      exact ⟨fun now => now.1, fun now => ⟨now, fun again => now.2 again.2⟩⟩
    · rw [← get?_dropReader_of_ne (s := s) same] at lists
      exact (ih lists).congr fun r => by simp [same]

/-- The tables of a cache agree on which recipes it has: each texture lists those that depend on it, those with
animations are animated, and what is baked or waits for a bake is theirs. -/
structure Indexed (c : Cache) : Prop where
  accepted : ∀ r id, c.id? r = some id → id ≠ Atlas.overflowId
  readers : ∀ texture, Lists (fun r => c.Holds r ∧ texture ∈ r.dependencies) (c.readers.get? texture)
  animated : ∀ r, (c.animated.get? r).isSome ↔ c.Holds r ∧ r.animations ≠ []
  once : c.animated.keys.Nodup
  baked : ∀ id, (c.baked.get? id).isSome → ∃ r, c.id? r = some id
  changed : ∀ r ∈ c.changedRecipes, c.Holds r

theorem indexed_ofAtlas (atlas : Atlas) : (ofAtlas atlas).Indexed where
  accepted := fun _ _ cached => nomatch cached
  readers := fun _ => .none fun _ ⟨⟨_, cached⟩, _⟩ => nomatch cached
  animated := fun _ => ⟨nofun, fun ⟨⟨_, cached⟩, _⟩ => nomatch cached⟩
  once := List.nodup_nil
  baked := fun _ found => nomatch found
  changed := fun _ member => nomatch member

theorem Indexed.withAtlas (indexed : c.Indexed) (atlas : Atlas) : Indexed { c with atlas := atlas } :=
  { indexed with }

theorem holds_enter : (c.enter s id).Holds r ↔ c.Holds r ∨ r = s := by
  simp only [Holds, id?_enter]
  by_cases same : r = s <;> simp [same]

theorem isSome_animated_enter (new : c.animated.get? s = none) :
    ((c.enter s id).animated.get? r).isSome ↔ (c.animated.get? r).isSome ∨ r = s ∧ s.animations ≠ [] := by
  by_cases same : r = s
  · subst same
    rw [new, ← Animation.isSome_start?]
    cases started : Animation.start? r.animations with
    | none => simp [enter, started, new]
    | some a => simp [get?_animated_enter_self started]
  · simp [get?_animated_enter_of_ne same, same]

theorem nodup_animated_enter (once : c.animated.keys.Nodup) : (c.enter s id).animated.keys.Nodup := by
  cases started : Animation.start? s.animations with
  | none => simpa only [enter, started] using once
  | some a => simpa only [enter, started] using Table.nodup_keys_insert once s a

theorem readers_enter (c : Cache) (s : Recipe) (id : Nat) :
    (c.enter s id).readers = s.dependencies.foldl (addReader s) c.readers := by
  rw [enter]

theorem Indexed.enter (indexed : c.Indexed) (new : c.id? s = none) (accepted : id ≠ Atlas.overflowId) :
    (c.enter s id).Indexed := by
  have absent : ¬c.Holds s := fun ⟨_, cached⟩ => nomatch new.symm.trans cached
  have unanimated : c.animated.get? s = none :=
    Option.not_isSome_iff_eq_none.mp fun found => absent ((indexed.animated s).mp found).1
  refine ⟨?_, fun texture => ?_, fun r => ?_, ?_, fun other found => ?_, fun r member => ?_⟩
  · intro r other cached
    rw [id?_enter] at cached
    split at cached
    · cases cached
      exact accepted
    · exact indexed.accepted r other cached
  · -- The recipe is on none of the lists yet, and it goes on each of its own once, as no dependency is told twice.
    have lists := lists_foldl_addReader s.nodup_dependencies (indexed.readers texture) fun reads => absent reads.1
    rw [readers_enter]
    refine lists.congr fun r => ?_
    rw [holds_enter, or_and_right]
    refine or_congr_right ⟨?_, ?_⟩
    · rintro ⟨depends, rfl⟩
      exact ⟨rfl, depends⟩
    · rintro ⟨rfl, depends⟩
      exact ⟨depends, rfl⟩
  · rw [isSome_animated_enter unanimated, indexed.animated r, holds_enter, or_and_right]
    refine or_congr_right (and_congr_right fun same => ?_)
    rw [same]
  · exact nodup_animated_enter indexed.once
  · obtain ⟨r, cached⟩ := indexed.baked other found
    refine ⟨r, ?_⟩
    rw [id?_enter, if_neg, cached]
    rintro rfl
    exact absent ⟨other, cached⟩
  · rw [mem_changedRecipes_enter] at member
    exact holds_enter.mpr (member.imp_left (indexed.changed r))

theorem indexed_get (indexed : c.Indexed) (s : Recipe) : (c.get s).2.Indexed := by
  rcases get_cases c s with ⟨_, _, same⟩ | ⟨new, ⟨_, same⟩ | ⟨left, same⟩⟩ <;> rw [same]
  · exact indexed
  · exact indexed.withAtlas _
  · exact (indexed.withAtlas _).enter new left

theorem id?_free_of_ne (different : r ≠ s) : (c.free s).1.id? r = c.id? r := by
  cases freed : c.id? s with
  | none => rw [free_of_none freed]
  | some gone =>
    rw [free_of_id? freed]
    exact Table.get?_erase_of_ne c.ids different

theorem holds_free : (c.free s).1.Holds r ↔ c.Holds r ∧ r ≠ s := by
  constructor
  · rintro ⟨id, cached⟩
    obtain ⟨different, before⟩ := id?_free cached
    exact ⟨⟨id, before⟩, different⟩
  · rintro ⟨⟨id, cached⟩, different⟩
    exact ⟨id, (id?_free_of_ne different).trans cached⟩

theorem indexed_free (indexed : c.Indexed) (s : Recipe) : (c.free s).1.Indexed := by
  cases freed : c.id? s with
  | none =>
    rw [free_of_none freed]
    exact indexed
  | some gone =>
    have holds : ∀ r, (c.free s).1.Holds r ↔ c.Holds r ∧ r ≠ s := fun _ => holds_free
    have kept : ∀ r, r ≠ s → (c.free s).1.id? r = c.id? r := fun _ => id?_free_of_ne
    refine ⟨fun r id cached => indexed.accepted r id (id?_free cached).2, fun texture => ?_, fun r => ?_, ?_,
      fun id found => ?_, fun r member => (holds r).mpr ?_⟩
    · simp only [holds]
      rw [free_of_id? freed]
      dsimp only
      refine (lists_foldl_dropReader (indexed.readers texture)).congr fun r => ?_
      constructor
      · rintro ⟨⟨held, depends⟩, unread⟩
        refine ⟨⟨held, ?_⟩, depends⟩
        rintro rfl
        exact unread ⟨depends, rfl⟩
      · rintro ⟨⟨held, different⟩, depends⟩
        exact ⟨⟨held, depends⟩, fun read => different read.2⟩
    · rw [holds r, and_right_comm, ← indexed.animated r, free_of_id? freed]
      dsimp only
      by_cases same : r = s
      · simp [same, Table.get?_erase_self]
      · simp [same, Table.get?_erase_of_ne]
    · rw [free_of_id? freed]
      exact Table.nodup_keys_erase indexed.once s
    · rw [free_of_id? freed] at found
      dsimp only at found
      by_cases same : id = gone
      · rw [same, Table.get?_erase_self] at found
        cases found
      · rw [Table.get?_erase_of_ne _ same] at found
        obtain ⟨r, cached⟩ := indexed.baked id found
        refine ⟨r, (kept r ?_).trans cached⟩
        rintro rfl
        exact same (Option.some.inj (cached.symm.trans freed))
    · rw [free_of_id? freed] at member
      obtain ⟨member, different⟩ := List.mem_filter.mp member
      exact ⟨indexed.changed r member, of_decide_eq_true different⟩

/-- What a step of time marks are the recipes with an animation that moves. -/
theorem mem_changedRecipes_animate_iff (once : c.animated.keys.Nodup) {seconds : Float} :
    r ∈ (c.animate seconds).1.changedRecipes ↔
      r ∈ c.changedRecipes ∨ ∃ a, c.animated.get? r = some a ∧ (a.advance seconds c.sheetSize?).1 = true := by
  constructor
  · intro member
    simp only [animate, List.mem_append, List.mem_map, List.mem_filter] at member
    refine member.imp_right ?_
    rintro ⟨_, ⟨⟨⟨s, a⟩, entry, rfl⟩, moved⟩, rfl⟩
    exact ⟨a, Table.get?_of_mem once entry, moved⟩
  · rintro (before | ⟨a, found, moved⟩)
    · exact List.mem_append_left _ before
    · exact mem_changedRecipes_animate found moved

theorem indexed_animate (indexed : c.Indexed) (seconds : Float) : (c.animate seconds).1.Indexed := by
  refine ⟨indexed.accepted, indexed.readers, fun r => ?_, ?_, indexed.baked, fun r member => ?_⟩
  · rw [get?_animated_animate, Option.isSome_map]
    exact indexed.animated r
  · have keys : (c.animate seconds).1.animated.keys = c.animated.keys := by
      simp [animate, Table.keys, Function.comp_def]
    rw [keys]
    exact indexed.once
  · rcases (mem_changedRecipes_animate_iff indexed.once).mp member with before | ⟨a, found, _⟩
    · exact indexed.changed r before
    · exact ((indexed.animated r).mp (found ▸ rfl)).1

theorem indexed_refresh (indexed : c.Indexed) (ids : List Nat) (r : Recipe) : (refresh (c, ids) r).1.Indexed := by
  rw [refresh]
  cases cached : c.id? r with
  | none => exact indexed
  | some own =>
    refine ⟨indexed.accepted, indexed.readers, indexed.animated, indexed.once, fun id found => ?_, indexed.changed⟩
    by_cases same : id = own
    · rw [same]
      exact ⟨r, cached⟩
    · dsimp only at found
      rw [Table.get?_insert_of_ne _ _ same] at found
      exact indexed.baked id found

theorem indexed_rebake (indexed : c.Indexed) : c.rebake.1.Indexed := by
  refine List.foldlRecOn (motive := fun state => state.1.Indexed) c.stale refresh ?_ fun _ indexed r _ =>
    indexed_refresh indexed _ r
  exact { indexed with changed := fun _ member => nomatch member }

theorem indexed_step (indexed : c.Indexed) (call : Call) : (c.step call).Indexed := by
  cases call with
  | get r => exact indexed_get indexed r
  | free r => exact indexed_free indexed r
  | animate seconds => exact indexed_animate indexed seconds
  | rebake => exact indexed_rebake indexed
  | setTexture _ _ | freeTexture _ => exact { indexed with }
  | direct _ _ => exact indexed.withAtlas _

theorem indexed_run {calls : List Call} (indexed : c.Indexed) (run : Run c calls d) : d.Indexed := by
  induction run with
  | done c => exact indexed
  | more _ _ ih => exact ih (indexed_step indexed _)

theorem indexed_of_starts (starts : c.Starts) : c.Indexed := by
  obtain ⟨_, _, _, _, _, _, rfl⟩ := starts
  exact indexed_ofAtlas _

/-- The id that a recipe is given is the one that it is cached under, except for the overflow id. -/
theorem id?_get_self (indexed : c.Indexed) (r : Recipe) :
    (c.get r).2.id? r = if (c.get r).1 = Atlas.overflowId then none else some (c.get r).1 := by
  rcases get_cases c r with ⟨id, cached, same⟩ | ⟨new, ⟨_, same⟩ | ⟨left, same⟩⟩ <;> rw [same]
  · rw [if_neg (indexed.accepted r id cached), cached]
  · rw [if_pos rfl]
    exact new
  · rw [if_neg left, id?_enter, if_pos rfl]

theorem holds_get_self (indexed : c.Indexed) : (c.get r).2.Holds r ↔ (c.get r).1 ≠ Atlas.overflowId := by
  rw [Holds, id?_get_self indexed]
  by_cases overflow : (c.get r).1 = Atlas.overflowId <;> simp [overflow]

theorem id?_get (cached : c.id? r = some id) : (c.get s).2.id? r = some id := by
  rcases get_cases c s with ⟨_, _, same⟩ | ⟨new, ⟨_, same⟩ | ⟨_, same⟩⟩ <;> rw [same]
  · exact cached
  · exact cached
  · rw [id?_enter, if_neg]
    · exact cached
    · rintro rfl
      cases new.symm.trans cached

theorem id?_step (linked : c.Linked) {call : Call} (kept : call ≠ .free r) (cached : c.id? r = some id) :
    (c.step call).id? r = some id := by
  cases call with
  | get s => exact id?_get cached
  | free s =>
    refine (id?_free_of_ne ?_).trans cached
    rintro rfl
    exact kept rfl
  | rebake => exact (id?_rebake linked r).trans cached
  | setTexture _ _ | freeTexture _ | animate _ | direct _ _ => exact cached

/-- A recipe keeps its id until it is freed. -/
theorem id?_run {calls : List Call} (linked : c.Linked) (run : Run c calls d) (kept : Call.free r ∉ calls)
    (cached : c.id? r = some id) : d.id? r = some id := by
  induction run with
  | done c => exact cached
  | more allowed _ ih =>
    rw [List.mem_cons, not_or] at kept
    exact ih (linked_step linked allowed) kept.2 (id?_step linked (Ne.symm kept.1) cached)

/-- Unless the first recipe is freed in between, two recipes have the same id just if they are the same. -/
theorem get_eq_iff {calls : List Call} (linked : c.Linked) (indexed : c.Indexed) (run : Run (c.get r).2 calls d)
    (kept : Call.free r ∉ calls) :
    (d.get s).1 = (c.get r).1 ∧ (c.get r).1 ≠ Atlas.overflowId ↔ r = s ∧ (c.get r).2.Holds r := by
  have linkedNow : d.Linked := linked_run (linked_get linked r) run
  have indexedNow : d.Indexed := indexed_run (indexed_get indexed r) run
  have later : (c.get r).1 ≠ Atlas.overflowId → d.id? r = some (c.get r).1 := by
    intro accepted
    have entered := id?_get_self indexed r
    rw [if_neg accepted] at entered
    exact id?_run (linked_get linked r) run kept entered
  rw [holds_get_self indexed]
  refine and_congr_left fun accepted => ⟨fun same => ?_, ?_⟩
  · -- Both recipes are cached in the end, and ids are distinct there.
    have second := id?_get_self indexedNow s
    rw [same, if_neg accepted] at second
    exact (linked_get linkedNow s).distinct r s _ (id?_get (later accepted)) second
  · rintro rfl
    have second := id?_get (s := r) (later accepted)
    rw [id?_get_self indexedNow] at second
    split at second
    · cases second
    · exact Option.some.inj second

theorem ofCode_inj {p q : Array UInt8} : Recipe.ofCode p = Recipe.ofCode q ↔ p = q :=
  ⟨congrArg Recipe.code, congrArg Recipe.ofCode⟩

/-- Whatever is done with a cache, its tables agree, no two recipes share an id, and an id is given again just to the
code that was cached under it. -/
theorem tables_agree {calls : List Call} (starts : c.Starts) (run : Run c calls d) :
    d.Linked ∧ d.Indexed ∧ ∀ (p q : Array UInt8) (between : List Call) (e : Cache),
      Run (d.get (.ofCode p)).2 between e → Call.free (.ofCode p) ∉ between →
        ((e.get (.ofCode q)).1 = (d.get (.ofCode p)).1 ∧ (d.get (.ofCode p)).1 ≠ Atlas.overflowId ↔
          p = q ∧ (d.get (.ofCode p)).2.Holds (.ofCode p)) := by
  have linked : d.Linked := linked_run (linked_of_starts starts) run
  have indexed : d.Indexed := indexed_run (indexed_of_starts starts) run
  refine ⟨linked, indexed, fun p q between e during kept => ?_⟩
  rw [← ofCode_inj]
  exact get_eq_iff linked indexed during kept

/-- A new cache with two ids to hand out. -/
def roomy : Cache :=
  ofAtlas (Atlas.ofImage { maxTextureId := 4, maxLayers := 1, padding := 1, stagingBytes := 168 } 4 2 1)

theorem starts_roomy : roomy.Starts := by
  refine ⟨{ maxTextureId := 4, maxLayers := 1, padding := 1, stagingBytes := 168 }, .create 1,
    some Atlas.World.sample.staging,
    { Atlas.World.sample with
      atlas := roomy.atlas
      device := ((Atlas.Device.create 1).createBuffer 128).2.added (.create 1024 1) }, [], ?_, rfl⟩
  refine Atlas.World.create_of_unlimited rfl ?_ rfl
  simp [Atlas.Staging.size, Atlas.World.sample, ByteArray.size, Atlas.Config.tableBytes, Atlas.entryBytes]

/-- A recipe comes and goes, and its id is left for the next. -/
def returning : List Call := [.get plain, .rebake, .free plain]

theorem tables_agree_returning : roomy.Starts ∧ ∃ d, Run roomy returning d ∧ d.Indexed ∧ (d.get turning).1 = 2 ∧
    ∀ e, Run (d.get turning).2 [Call.get plain, Call.rebake] e → (e.get plain).1 ≠ 2 := by
  have run : Run roomy returning _ := run_foldl _ (by simp [returning])
  obtain ⟨_, indexed, same⟩ := tables_agree starts_roomy run
  have given : ((returning.foldl step roomy).get turning).1 = 2 := by decide +kernel
  refine ⟨starts_roomy, _, run, indexed, given, fun e during again => ?_⟩
  rw [← given] at again
  have accepted : ((returning.foldl step roomy).get turning).1 ≠ Atlas.overflowId := given ▸ by decide
  have codes := (same turning.code plain.code _ e during (by simp)).mp ⟨again, accepted⟩
  exact absurd codes.1 (by decide +kernel)

end Cache

end TextureLoom
