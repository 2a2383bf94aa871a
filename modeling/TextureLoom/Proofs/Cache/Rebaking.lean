import TextureLoom.Proofs.Atlas.Resizing
import TextureLoom.Proofs.Cache.Stale

set_option autoImplicit false

namespace TextureLoom.Cache

open Atlas (Action World Succeeds)

/-- What is done with a cache. -/
inductive Call where
  | get (r : Recipe)
  | free (r : Recipe)
  | setTexture (id : Nat) (texture : TextureView)
  | freeTexture (id : Nat)
  | animate (seconds : Float)
  | rebake
  /-- An action on the atlas behind the cache, whatever device and staging buffer are `around` it then. -/
  | direct (around : World) (action : Action)

def step (c : Cache) : Call → Cache
  | .get r => (c.get r).2
  | .free r => (c.free r).1
  | .setTexture id texture => c.setTexture id texture
  | .freeTexture id => c.freeTexture id
  | .animate seconds => (c.animate seconds).1
  | .rebake => c.rebake.1
  | .direct around action => { c with atlas := ({ around with atlas := c.atlas }.step action).atlas }

/-- The ids of cached recipes are given back through the cache only. -/
def Allows (c : Cache) : Call → Prop
  | .direct _ (.remove id) => ∀ r, c.id? r ≠ some id
  | _ => True

/-- A cache that is new, for an atlas that may have been in use before. -/
def Starts (c : Cache) : Prop :=
  ∃ config device given, ∃ w : World, ∃ actions : List Action,
    Atlas.create config device given = .ok (w.atlas, w.device, w.staging) ∧
    c = ofAtlas (actions.foldl World.step w).atlas

/-- The calls, one after the other, lead from one cache to another. -/
inductive Run : Cache → List Call → Cache → Prop where
  | done (c : Cache) : Run c [] c
  | more {c last : Cache} {call : Call} {rest : List Call} :
      c.Allows call → Run (c.step call) rest last → Run c (call :: rest) last

/-- The ids of cached recipes are in use and differ, and each recipe is noted for all textures that it depends on. -/
structure Linked (c : Cache) : Prop where
  orderly : c.atlas.Orderly
  registered : ∀ r id, c.id? r = some id → (c.atlas.slot id).isRegistered = true
  distinct : ∀ r s id, c.id? r = some id → c.id? s = some id → r = s
  noted : ∀ r id, c.id? r = some id → ∀ texture ∈ r.dependencies, Reads c.readers texture r

/-- What is stored with the id of a recipe is its picture from scratch, unless the recipe is about to be baked again. -/
def Fresh (c : Cache) (r : Recipe) (id : Nat) : Prop := r ∈ c.stale ∨ c.baked.get? id = some (c.generate r)

variable {c d : Cache} {r s : Recipe} {id : Nat}

theorem generate_of_eq (raw : d.raw = c.raw) (seconds : d.seconds = c.seconds) : d.generate r = c.generate r := by
  refine generate_congr (fun id _ => by rw [raw]) fun spec _ sheet _ => ?_
  simp only [seconds]

/-- A cache without new recipes, whose atlas keeps the ids of those that it has. -/
theorem Linked.keep {gone : Nat → Prop} (linked : c.Linked) (succeeds : Succeeds gone c.atlas d.atlas)
    (ids : ∀ r id, d.id? r = some id → c.id? r = some id ∧ ¬gone id)
    (noted : ∀ r id texture, d.id? r = some id → Reads c.readers texture r → Reads d.readers texture r) :
    d.Linked where
  orderly := succeeds.toOrderly
  registered := by
    intro r id cached
    obtain ⟨before, kept⟩ := ids r id cached
    exact succeeds.registered id kept (linked.registered r id before)
  distinct := fun r s id first second => linked.distinct r s id (ids r id first).1 (ids s id second).1
  noted := by
    intro r id cached texture depends
    exact noted r id texture cached (linked.noted r id (ids r id cached).1 texture depends)

theorem linked_of_starts (starts : c.Starts) : c.Linked := by
  obtain ⟨_, _, _, w, actions, created, rfl⟩ := starts
  exact
    { orderly := World.orderly_foldl (Atlas.orderly_of_create created) actions
      registered := fun _ _ cached => nomatch cached
      distinct := fun _ _ _ cached => nomatch cached
      noted := fun _ _ cached => nomatch cached }

/-- Recipes that are to be baked again still are when the changes noted are kept. -/
theorem stale_mono (stale : r ∈ c.stale) (textures : ∀ texture ∈ c.changedTextures, texture ∈ d.changedTextures)
    (readers : ∀ texture, Reads c.readers texture r → Reads d.readers texture r)
    (recipes : r ∈ c.changedRecipes → r ∈ d.changedRecipes) : r ∈ d.stale := by
  rw [mem_stale] at stale ⊢
  rcases stale with ⟨texture, changed, reads⟩ | changed
  · exact .inl ⟨texture, textures texture changed, readers texture reads⟩
  · exact .inr (recipes changed)

/-- What is fresh stays so while its bake and its picture stay, or else it is to be baked again. -/
theorem Fresh.keep (fresh : c.Fresh r id) (stale : r ∈ c.stale → r ∈ d.stale)
    (baked : d.baked.get? id = c.baked.get? id) (picture : r ∈ d.stale ∨ d.generate r = c.generate r) :
    d.Fresh r id := by
  rcases picture with again | same
  · exact .inl again
  · rcases fresh with before | shown
    · exact .inl (stale before)
    · exact .inr (by rw [baked, shown, same])

theorem Fresh.withAtlas (fresh : c.Fresh r id) (atlas : Atlas) : Fresh { c with atlas := atlas } r id :=
  fresh.keep (fun stale => stale) rfl (.inr (generate_of_eq rfl rfl))

theorem id?_enter (c : Cache) (r s : Recipe) (id : Nat) :
    (c.enter s id).id? r = if r = s then some id else c.id? r := by
  show (c.ids.insert s id).get? r = _
  by_cases same : r = s
  · rw [if_pos same, same, Table.get?_insert_self]
  · rw [if_neg same, Table.get?_insert_of_ne _ _ same]
    rfl

theorem reads_enter {texture : Nat} : Reads (c.enter s id).readers texture r ↔
    Reads c.readers texture r ∨ texture ∈ s.dependencies ∧ r = s := by
  simp only [enter, reads_foldl_addReader]

theorem mem_changedRecipes_enter : r ∈ (c.enter s id).changedRecipes ↔ r ∈ c.changedRecipes ∨ r = s := by
  show r ∈ c.changedRecipes ++ [s] ↔ _
  rw [List.mem_append, List.mem_singleton]

/-- A recipe that is not cached is entered under the next id, unless there is none. -/
theorem get_cases (c : Cache) (r : Recipe) :
    (∃ id, c.id? r = some id ∧ c.get r = (id, c)) ∨ c.id? r = none ∧
      (c.atlas.register.1 = Atlas.overflowId ∧ c.get r = (Atlas.overflowId, { c with atlas := c.atlas.register.2 }) ∨
        c.atlas.register.1 ≠ Atlas.overflowId ∧
          c.get r = (c.atlas.register.1, { c with atlas := c.atlas.register.2 }.enter r c.atlas.register.1)) := by
  unfold get
  cases c.id? r with
  | some id => exact .inl ⟨id, rfl, rfl⟩
  | none =>
    refine .inr ⟨rfl, ?_⟩
    dsimp only
    by_cases overflow : c.atlas.register.1 = Atlas.overflowId
    · rw [if_pos overflow, overflow]
      exact .inl ⟨rfl, rfl⟩
    · rw [if_neg overflow]
      exact .inr ⟨overflow, rfl⟩

theorem Linked.handsOut (linked : c.Linked) (left : c.atlas.register.1 ≠ Atlas.overflowId) :
    Atlas.HandsOut c.atlas.register.1 c.atlas c.atlas.register.2 := by
  obtain ⟨_, registry⟩ := linked.orderly.registry
  refine (Atlas.handsOut_register registry).resolve_left fun taken => ?_
  rw [taken] at left
  exact left rfl

/-- A recipe that comes gets an id that no other has. -/
theorem Linked.enter (linked : c.Linked) {b : Atlas} (handsOut : Atlas.HandsOut id c.atlas b)
    (succeeds : Succeeds (fun _ => False) c.atlas b) (s : Recipe) : ({ c with atlas := b }.enter s id).Linked := by
  have ids : ∀ r other, ({ c with atlas := b }.enter s id).id? r = some other →
      r = s ∧ other = id ∨ other ≠ id ∧ c.id? r = some other := by
    intro r other cached
    rw [id?_enter] at cached
    split at cached
    · rename_i same
      exact .inl ⟨same, (Option.some.inj cached).symm⟩
    · refine .inr ⟨?_, cached⟩
      -- An id that is handed out was not in use, so no recipe had it.
      rintro rfl
      have registered := linked.registered r other cached
      rw [handsOut.unregistered] at registered
      cases registered
  refine ⟨succeeds.toOrderly, ?_, ?_, ?_⟩
  · intro r other cached
    rcases ids r other cached with ⟨_, rfl⟩ | ⟨_, before⟩
    · show (b.slot other).isRegistered = true
      rw [handsOut.slot]
      rfl
    · exact succeeds.registered other not_false (linked.registered r other before)
  · intro r t other first second
    rcases ids r other first with ⟨rfl, rfl⟩ | ⟨different, before⟩
    · rcases ids t other second with ⟨same, _⟩ | ⟨different, _⟩
      · exact same.symm
      · exact absurd rfl different
    · rcases ids t other second with ⟨_, same⟩ | ⟨_, too⟩
      · exact absurd same different
      · exact linked.distinct r t other before too
  · intro r other cached texture depends
    rcases ids r other cached with ⟨rfl, _⟩ | ⟨_, before⟩
    · exact reads_enter.mpr (.inr ⟨depends, rfl⟩)
    · exact reads_enter.mpr (.inl (linked.noted r other before texture depends))

theorem linked_get (linked : c.Linked) (s : Recipe) : (c.get s).2.Linked := by
  have succeeds : Succeeds (fun _ => False) c.atlas c.atlas.register.2 := linked.orderly.register
  rcases get_cases c s with ⟨_, _, same⟩ | ⟨_, ⟨_, same⟩ | ⟨left, same⟩⟩ <;> rw [same]
  · exact linked
  · exact linked.keep succeeds (fun _ _ cached => ⟨cached, not_false⟩) fun _ _ _ _ reads => reads
  · exact linked.enter (linked.handsOut left) succeeds s

theorem fresh_enter {entered : Nat} (fresh : c.id? r = some id → c.Fresh r id)
    (cached : (c.enter s entered).id? r = some id) : (c.enter s entered).Fresh r id := by
  rw [id?_enter] at cached
  split at cached
  · rename_i new
    exact .inl (mem_stale.mpr (.inr (mem_changedRecipes_enter.mpr (.inr new))))
  · refine (fresh cached).keep (fun stale => ?_) rfl (.inr (generate_of_eq rfl rfl))
    exact stale_mono stale (fun _ changed => changed) (fun _ reads => reads_enter.mpr (.inl reads))
      fun changed => mem_changedRecipes_enter.mpr (.inl changed)

theorem fresh_get (fresh : c.id? r = some id → c.Fresh r id) (cached : (c.get s).2.id? r = some id) :
    (c.get s).2.Fresh r id := by
  rcases get_cases c s with ⟨_, _, same⟩ | ⟨_, ⟨_, same⟩ | ⟨_, same⟩⟩ <;> rw [same] at cached ⊢
  · exact fresh cached
  · exact (fresh cached).withAtlas _
  · exact fresh_enter (fun before => (fresh before).withAtlas _) cached

theorem free_of_none (unknown : c.id? s = none) : (c.free s).1 = c := by rw [free, unknown]

theorem free_of_id? {gone : Nat} (freed : c.id? s = some gone) : (c.free s).1 =
    { c with
      atlas := (c.atlas.remove gone).1
      ids := c.ids.erase s
      readers := s.dependencies.foldl (dropReader s) c.readers
      animated := c.animated.erase s
      changedRecipes := c.changedRecipes.filter (· ≠ s)
      baked := c.baked.erase gone } := by
  rw [free, freed]

theorem id?_free (cached : (c.free s).1.id? r = some id) : r ≠ s ∧ c.id? r = some id := by
  cases freed : c.id? s with
  | none =>
    rw [free_of_none freed] at cached
    refine ⟨?_, cached⟩
    rintro rfl
    rw [freed] at cached
    cases cached
  | some gone =>
    rw [free_of_id? freed, id?] at cached
    by_cases same : r = s
    · rw [same, Table.get?_erase_self] at cached
      cases cached
    · rw [Table.get?_erase_of_ne c.ids same] at cached
      exact ⟨same, cached⟩

theorem reads_free {texture : Nat} (reads : Reads c.readers texture r) (different : r ≠ s) :
    Reads (c.free s).1.readers texture r := by
  cases freed : c.id? s with
  | none =>
    rw [free_of_none freed]
    exact reads
  | some gone =>
    rw [free_of_id? freed]
    dsimp only
    exact reads_foldl_dropReader s.dependencies reads different

theorem linked_free (linked : c.Linked) (s : Recipe) : (c.free s).1.Linked := by
  have noted : ∀ r id texture, (c.free s).1.id? r = some id → Reads c.readers texture r →
      Reads (c.free s).1.readers texture r := fun _ _ _ cached reads => reads_free reads (id?_free cached).1
  cases freed : c.id? s with
  | none =>
    rw [free_of_none freed]
    exact linked
  | some gone =>
    have atlas : (c.free s).1.atlas = (c.atlas.remove gone).1 := by rw [free_of_id? freed]
    refine linked.keep (atlas ▸ linked.orderly.remove gone) ?_ noted
    intro r id cached
    obtain ⟨different, before⟩ := id?_free cached
    have others : id ≠ gone := by
      rintro rfl
      exact different (linked.distinct r s id before freed)
    exact ⟨before, others⟩

theorem fresh_free (linked : c.Linked) (fresh : c.id? r = some id → c.Fresh r id)
    (cached : (c.free s).1.id? r = some id) : (c.free s).1.Fresh r id := by
  obtain ⟨different, before⟩ := id?_free cached
  have noted : ∀ texture, Reads c.readers texture r → Reads (c.free s).1.readers texture r :=
    fun _ reads => reads_free reads different
  cases freed : c.id? s with
  | none =>
    rw [free_of_none freed]
    exact fresh before
  | some gone =>
    have others : id ≠ gone := by
      rintro rfl
      exact different (linked.distinct r s id before freed)
    rw [free_of_id? freed] at noted ⊢
    generalize (c.atlas.remove gone).1 = atlas at noted ⊢
    refine (fresh before).keep (fun stale => ?_) (Table.get?_erase_of_ne c.baked others) (.inr (generate_of_eq rfl rfl))
    refine stale_mono stale (fun _ changed => changed) noted fun changed => ?_
    exact List.mem_filter.mpr ⟨changed, decide_eq_true different⟩

/-- When a texture is replaced, the recipes that depend on it are to be baked again, and the pictures of the others
stay. -/
theorem fresh_replace (linked : c.Linked) (fresh : c.id? r = some id → c.Fresh r id) (cached : c.id? r = some id)
    {texture : Nat} {raw : Table Nat TextureView}
    (others : ∀ other, other ≠ texture → raw.get? other = c.raw.get? other) :
    Fresh { c with raw := raw, changedTextures := c.changedTextures ++ [texture] } r id := by
  refine (fresh cached).keep (fun stale => ?_) rfl ?_
  · exact stale_mono stale (fun _ => List.mem_append_left _) (fun _ reads => reads) fun changed => changed
  · by_cases depends : texture ∈ r.dependencies
    · refine .inl (mem_stale.mpr (.inl ⟨texture, List.mem_append_right _ List.mem_cons_self, ?_⟩))
      exact linked.noted r id cached texture depends
    · refine .inr (generate_congr ?_ fun _ _ _ _ => rfl)
      intro other needed
      exact others other fun same => depends (same ▸ needed)

/-- A step of time changes the picture only of a recipe that is to be baked again behind it: all animations of another
show the same. -/
def Heeds (c : Cache) (seconds : Float) (r : Recipe) : Prop :=
  r ∈ (c.animate seconds).1.stale ∨
    ∀ spec ∈ r.animations, Bake.Setting.Still ⟨c.raw.get?, seconds⟩ ⟨c.raw.get?, c.seconds⟩ spec

theorem stale_animate (seconds : Float) (stale : r ∈ c.stale) : r ∈ (c.animate seconds).1.stale :=
  stale_mono stale (fun _ changed => changed) (fun _ reads => reads) (List.mem_append_left _)

theorem fresh_animate {seconds : Float} (fresh : c.Fresh r id) (heeds : c.Heeds seconds r) :
    (c.animate seconds).1.Fresh r id :=
  fresh.keep (stale_animate seconds) rfl (heeds.imp_right fun still => generate_congr (fun _ _ => rfl) still)

/-- The recipes `rs` have been baked again, and the atlas was told. -/
structure Rebaked (rs : List Recipe) (c d : Cache) : Prop where
  others : d = { c with atlas := d.atlas, baked := d.baked }
  succeeds : Succeeds (fun _ => False) c.atlas d.atlas
  stored : ∀ r id, c.id? r = some id → d.baked.get? id = if r ∈ rs then some (c.generate r) else c.baked.get? id

theorem Rebaked.id? {rs : List Recipe} (rebaked : Rebaked rs c d) (r : Recipe) : d.id? r = c.id? r := by
  rw [rebaked.others]
  rfl

theorem Rebaked.generate {rs : List Recipe} (rebaked : Rebaked rs c d) (r : Recipe) : d.generate r = c.generate r := by
  rw [rebaked.others]
  exact generate_of_eq rfl rfl

theorem Rebaked.linked {rs : List Recipe} (rebaked : Rebaked rs c d) (linked : c.Linked) : d.Linked := by
  refine linked.keep rebaked.succeeds (fun r id cached => ⟨rebaked.id? r ▸ cached, not_false⟩) ?_
  intro r id texture _ reads
  rw [rebaked.others]
  exact reads

theorem Rebaked.trans {rs ts : List Recipe} {e : Cache} (first : Rebaked rs c d) (second : Rebaked ts d e) :
    Rebaked (rs ++ ts) c e where
  others := by
    rw [second.others, first.others]
  succeeds := first.succeeds.trans second.succeeds
  stored := by
    intro r id cached
    rw [second.stored r id (first.id? r ▸ cached), first.stored r id cached, first.generate r]
    by_cases late : r ∈ ts <;> simp [late]

theorem rebaked_refresh (linked : c.Linked) (ids : List Nat) (r : Recipe) : Rebaked [r] c (refresh (c, ids) r).1 := by
  rw [refresh]
  cases cached : c.id? r with
  | none =>
    refine ⟨rfl, .refl linked.orderly, ?_⟩
    intro s id stays
    have other : s ∉ [r] := by
      rw [List.mem_singleton]
      rintro rfl
      rw [cached] at stays
      cases stays
    rw [if_neg other]
  | some own =>
    refine ⟨rfl, linked.orderly.set own _ _ _ _, ?_⟩
    intro s id stays
    simp only [List.mem_singleton]
    by_cases same : s = r
    · subst same
      cases cached.symm.trans stays
      rw [if_pos rfl, Table.get?_insert_self]
    · have different : id ≠ own := by
        rintro rfl
        exact same (linked.distinct s r id stays cached)
      rw [if_neg same]
      exact Table.get?_insert_of_ne _ _ different

theorem rebaked_foldl (linked : c.Linked) (rs : List Recipe) (ids : List Nat) :
    Rebaked rs c (rs.foldl refresh (c, ids)).1 := by
  induction rs generalizing c ids with
  | nil => exact ⟨rfl, .refl linked.orderly, fun r id cached => by simp⟩
  | cons r rest ih =>
    have first := rebaked_refresh linked ids r
    exact first.trans (ih (first.linked linked) _)

/-- All that was to be baked again is. -/
theorem rebaked_rebake (linked : c.Linked) :
    Rebaked c.stale { c with changedTextures := [], changedRecipes := [] } c.rebake.1 := by
  refine rebaked_foldl ?_ c.stale []
  exact ⟨linked.orderly, linked.registered, linked.distinct, linked.noted⟩

/-- After a bake, what is stored for a recipe that was fresh is its picture. -/
theorem stored_of_rebake (linked : c.Linked) (fresh : c.id? r = some id → c.Fresh r id)
    (cached : c.rebake.1.id? r = some id) : c.rebake.1.baked.get? id = some (c.rebake.1.generate r) := by
  have rebaked := rebaked_rebake linked
  have picture : Cache.generate { c with changedTextures := [], changedRecipes := [] } r = c.generate r :=
    generate_of_eq rfl rfl
  rw [rebaked.id?] at cached
  rw [rebaked.stored r id cached, rebaked.generate, picture]
  split
  · rfl
  · rename_i clean
    -- Nothing has happened since its last bake.
    exact (fresh cached).resolve_left clean

theorem linked_step (linked : c.Linked) {call : Call} (allowed : c.Allows call) : (c.step call).Linked := by
  cases call with
  | get r => exact linked_get linked r
  | free r => exact linked_free linked r
  | rebake => exact (rebaked_rebake linked).linked ⟨linked.orderly, linked.registered, linked.distinct, linked.noted⟩
  | setTexture _ _ | freeTexture _ | animate _ =>
    exact ⟨linked.orderly, linked.registered, linked.distinct, linked.noted⟩
  | direct around action =>
    have succeeds := World.succeeds_step (w := { around with atlas := c.atlas }) linked.orderly action
    refine linked.keep succeeds (fun r id cached => ⟨cached, ?_⟩) fun _ _ _ _ reads => reads
    rintro rfl
    exact allowed r cached

/-- Each call keeps a cached recipe fresh, a step of time provided that it heeds what the recipe shows. -/
theorem fresh_step (linked : c.Linked) {call : Call} (fresh : ∀ id, c.id? r = some id → c.Fresh r id)
    (heeds : ∀ seconds, call = .animate seconds → c.Heeds seconds r) (cached : (c.step call).id? r = some id) :
    (c.step call).Fresh r id := by
  cases call with
  | get s => exact fresh_get (fresh id) cached
  | free s => exact fresh_free linked (fresh id) cached
  | setTexture texture view =>
    exact fresh_replace linked (fresh id) cached fun other different => Table.get?_insert_of_ne c.raw view different
  | freeTexture texture =>
    exact fresh_replace linked (fresh id) cached fun other different => Table.get?_erase_of_ne c.raw different
  | animate seconds => exact fresh_animate (fresh id cached) (heeds seconds rfl)
  | rebake => exact .inr (stored_of_rebake linked (fresh id) cached)
  | direct around action => exact (fresh id cached).withAtlas _

theorem fresh_of_starts (starts : c.Starts) (cached : c.id? r = some id) : c.Fresh r id := by
  obtain ⟨_, _, _, _, _, _, rfl⟩ := starts
  cases cached

/-- What a call does to the atlas, actions on it do. -/
theorem exists_actions (c : Cache) (call : Call) : ∃ (w : World) (actions : List Action),
    w.atlas = c.atlas ∧ (actions.foldl World.step w).atlas = (c.step call).atlas := by
  let w : World := { World.sample with atlas := c.atlas }
  cases call with
  | get r =>
    rcases get_cases c r with ⟨_, _, same⟩ | ⟨_, ⟨_, same⟩ | ⟨_, same⟩⟩ <;> rw [step, same]
    · exact ⟨w, [], rfl, rfl⟩
    · exact ⟨w, [.register], rfl, rfl⟩
    · exact ⟨w, [.register], rfl, rfl⟩
  | free r =>
    cases freed : c.id? r with
    | none =>
      rw [step, free_of_none freed]
      exact ⟨w, [], rfl, rfl⟩
    | some gone =>
      rw [step, free_of_id? freed]
      exact ⟨w, [.remove gone], rfl, rfl⟩
  | rebake =>
    refine ⟨w, ?_⟩
    have baked : ∃ actions : List Action, (actions.foldl World.step w).atlas = c.rebake.1.atlas := by
      refine List.foldlRecOn (motive := fun state => ∃ actions : List Action,
        (actions.foldl World.step w).atlas = state.1.atlas) c.stale refresh ?_ ?_
      · exact ⟨[], rfl⟩
      · rintro ⟨before, ids⟩ ⟨actions, made⟩ r _
        rw [refresh]
        cases before.id? r with
        | none => exact ⟨actions, made⟩
        | some own =>
          let picture := before.generate r
          refine ⟨actions ++
            [.set own picture.width picture.height (picture.width * 4) (Pixel.rgbaOfAll picture.pixels)], ?_⟩
          rw [List.foldl_append, List.foldl_cons, List.foldl_nil, World.atlas_step_set, made]
    obtain ⟨actions, made⟩ := baked
    exact ⟨actions, rfl, made⟩
  | setTexture _ _ | freeTexture _ | animate _ => exact ⟨w, [], rfl, rfl⟩
  | direct around action => exact ⟨{ around with atlas := c.atlas }, [action], rfl, rfl⟩

/-- A run that ends with a call. -/
theorem Run.last {calls : List Call} {call : Call} (run : Run c (calls ++ [call]) d) :
    ∃ before, Run c calls before ∧ before.Allows call ∧ d = before.step call := by
  induction calls generalizing c with
  | nil =>
    cases run with
    | more allowed rest =>
      cases rest
      exact ⟨c, .done c, allowed, rfl⟩
  | cons first rest ih =>
    cases run with
    | more allowed tail =>
      obtain ⟨before, run, allows, same⟩ := ih tail
      exact ⟨before, .more allowed run, allows, same⟩

/-- All calls on the cache itself are allowed. -/
theorem run_foldl (c : Cache) {calls : List Call} (own : ∀ around action, Call.direct around action ∉ calls) :
    Run c calls (calls.foldl step c) := by
  induction calls generalizing c with
  | nil => exact .done c
  | cons call rest ih =>
    refine .more ?_ (ih _ fun around action member => own around action (List.mem_cons_of_mem call member))
    cases call with
    | direct around action => exact absurd List.mem_cons_self (own around action)
    | _ => exact trivial

theorem linked_run {calls : List Call} (linked : c.Linked) (run : Run c calls d) : d.Linked := by
  induction run with
  | done c => exact linked
  | more allowed _ ih => exact ih (linked_step linked allowed)

/-- A recipe without animations is always fresh. -/
theorem fresh_run {calls : List Call} (run : Run c calls d) (linked : c.Linked)
    (fresh : ∀ id, c.id? r = some id → c.Fresh r id) (unanimated : r.animations = []) :
    ∀ id, d.id? r = some id → d.Fresh r id := by
  induction run with
  | done c => exact fresh
  | more allowed _ ih =>
    refine ih (linked_step linked allowed) fun id cached => fresh_step linked fresh (fun seconds _ => .inr ?_) cached
    rw [unanimated]
    exact fun spec animated => nomatch animated

/-- Whatever textures and recipes came and went, the last bake stored for a recipe without animations is its picture
from scratch. -/
theorem stored_from_scratch {calls : List Call} (starts : c.Starts) (run : Run c (calls ++ [.rebake]) d)
    (unanimated : r.animations = []) (cached : d.id? r = some id) : d.baked.get? id = some (d.generate r) := by
  obtain ⟨before, earlier, _, rfl⟩ := run.last
  have linked := linked_of_starts starts
  have fresh := fresh_run earlier linked (fun id => fresh_of_starts starts) unanimated
  exact stored_of_rebake (linked_run linked earlier) (fresh id) cached

theorem starts_sample : (ofAtlas World.sample.atlas).Starts := by
  obtain ⟨config, device, given, _, created, _⟩ := World.starts_sample
  exact ⟨config, device, given, World.sample, [], created, rfl⟩

/-- A recipe that shows a texture, which is missing when the recipe is baked first. -/
def plain : Recipe :=
  .ofCode ((Bytecode.Instr.texture (Bytecode.Origin.texture 5)).encode ++ [Bytecode.finishCode]).toArray

def lateTexture : List Call :=
  [.get plain, .rebake, .setTexture 5 ⟨1, 2, #[0xff204060, 0xff80a0c0]⟩]

theorem stored_from_scratch_lateTexture : (ofAtlas World.sample.atlas).Starts ∧ ∃ d,
    Run (ofAtlas World.sample.atlas) (lateTexture ++ [.rebake]) d ∧ plain.animations = [] ∧ d.id? plain = some 2 ∧
      d.baked.get? 2 = some (d.generate plain) := by
  have starts := starts_sample
  have run : Run (ofAtlas World.sample.atlas) (lateTexture ++ [.rebake]) _ := run_foldl _ (by simp [lateTexture])
  have unanimated : plain.animations = [] := by decide +kernel
  have cached : ((lateTexture ++ [Call.rebake]).foldl step (ofAtlas World.sample.atlas)).id? plain = some 2 := by
    decide +kernel
  exact ⟨starts, _, run, unanimated, cached, stored_from_scratch starts run unanimated cached⟩

end TextureLoom.Cache
