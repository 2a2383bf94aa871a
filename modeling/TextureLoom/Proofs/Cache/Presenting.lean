import TextureLoom.Proofs.Atlas.Numbering
import TextureLoom.Proofs.Cache.Handing
import TextureLoom.Proofs.Cache.Invalidating

set_option autoImplicit false

namespace TextureLoom

/-- A program makes an image only if all textures that it depends on are whole. -/
theorem whole_of_bake {code : Array UInt8} {provider : Provider} {seconds : Float} {img : Image} {id : Nat}
    (made : (bake code provider seconds).1 = .ok img) (depends : id ∈ Bytecode.dependencies code) :
    ∃ view, provider id = some view ∧ view.Whole := by
  obtain ⟨memory, _, _, settled⟩ := bake_tracks code provider seconds
  have tracks := settled img made
  have asked := (tracks.settled id (Bytecode.mem_dependencies.mp depends)).resolve_left List.not_mem_nil
  obtain ⟨sheet, isKept⟩ := Option.isSome_iff_exists.mp ((tracks.kept id).mpr asked)
  obtain ⟨view, provided, shown⟩ := Option.bind_eq_some_iff.mp (tracks.loaded id sheet isKept)
  exact ⟨view, provided, TextureView.isSome_image?.mp (Option.isSome_of_mem shown)⟩

namespace Atlas

variable {a : Atlas} {id : Nat}

/-- Calls can name all ids in use, and pass over none of them. -/
def Addressable (a : Atlas) : Prop := (∃ used, Numbered used a) ∧ a.config.maxTextureId ≤ noId

namespace Addressable

theorem heeded (addressable : a.Addressable) (registered : (a.slot id).isRegistered = true) :
    a.ignores id = false ∧ id < a.config.maxTextureId := by
  obtain ⟨⟨used, numbered⟩, limit⟩ := addressable
  obtain ⟨lower, upper⟩ := numbered.usable (.inl ((numbered.registered id).mpr registered))
  refine ⟨?_, upper⟩
  simp only [ignores, Bool.or_eq_false_iff, beq_eq_false_iff_ne, decide_eq_false_iff_not]
  omega

theorem foldl {w : World} (addressable : w.atlas.Addressable) (orderly : w.atlas.Orderly) (actions : List Action) :
    (actions.foldl World.step w).atlas.Addressable := by
  obtain ⟨⟨used, numbered⟩, limit⟩ := addressable
  exact ⟨⟨_, numbered.run orderly actions⟩, (World.fixes_foldl orderly actions).config ▸ limit⟩

end Addressable

end Atlas

namespace Cache

open Atlas (Handed World)

variable {c d : Cache} {r s : Recipe} {id : Nat}

/-- What a recipe shows when it cannot be baked is whole: the first texture that it depends on is, or is not there. -/
def Grounded (c : Cache) (r : Recipe) : Prop := ∀ view, r.dependencies.head?.bind c.raw.get? = some view → view.Whole

theorem whole_fallback (c : Cache) (r : Recipe) : (c.fallback r).Whole ↔ c.Grounded r := by
  rw [fallback, Grounded]
  cases r.dependencies.head?.bind c.raw.get? with
  | none => exact iff_of_true ⟨by decide, by decide, by decide⟩ fun _ shown => nomatch shown
  | some view => simp

theorem generate_cases (c : Cache) (r : Recipe) : c.generate r = c.fallback r ∨
    ∃ img, (bake r.code c.raw.get? c.seconds).1 = .ok img ∧ TextureView.ofImage? img = some (c.generate r) := by
  unfold generate
  cases (bake r.code c.raw.get? c.seconds).1 with
  | error e => exact .inl rfl
  | ok img =>
    dsimp only
    cases shown : TextureView.ofImage? img with
    | none => exact .inl Option.getD_none
    | some view =>
      rw [Option.getD_some]
      exact .inr ⟨img, rfl, shown⟩

/-- A picture is whole unless it is the fallback, which is stored as it is found. -/
theorem whole_generate (c : Cache) (r : Recipe) : (c.generate r).Whole ↔ c.Grounded r := by
  rcases generate_cases c r with same | ⟨img, made, shown⟩
  · rw [same, whole_fallback]
  · refine iff_of_true (TextureView.whole_of_ofImage? shown) fun view isFirst => ?_
    obtain ⟨texture, first, isView⟩ := Option.bind_eq_some_iff.mp isFirst
    obtain ⟨other, provided, whole⟩ := whole_of_bake made (List.mem_of_head? first)
    cases isView.symm.trans provided
    exact whole

theorem generate_of_not_grounded (malformed : ¬c.Grounded r) :
    r.dependencies.head?.bind c.raw.get? = some (c.generate r) := by
  have same : c.generate r = c.fallback r := by
    rcases generate_cases c r with same | ⟨img, _, shown⟩
    · exact same
    · exact absurd ((whole_generate c r).mp (TextureView.whole_of_ofImage? shown)) malformed
  rw [same, fallback]
  cases isFirst : r.dependencies.head?.bind c.raw.get? with
  | none => exact absurd (fun view shown => nomatch isFirst.symm.trans shown) malformed
  | some view => rfl

theorem refresh_of_id? (cached : c.id? r = some id) (ids : List Nat) : refresh (c, ids) r =
    ({ c with atlas := (c.atlas.hand id (c.generate r)).1, baked := c.baked.insert id (c.generate r) },
      ids ++ [id]) := by
  rw [refresh, cached]
  rfl

theorem config_refresh (c : Cache) (ids : List Nat) (r : Recipe) :
    (refresh (c, ids) r).1.atlas.config = c.atlas.config := by
  cases cached : c.id? r with
  | none => rw [refresh, cached]
  | some id =>
    rw [refresh_of_id? cached]
    exact (Atlas.edits_set c.atlas id _ _ _ _).config

theorem addressable_step (linked : c.Linked) (addressable : c.atlas.Addressable) (call : Call) :
    (c.step call).atlas.Addressable := by
  obtain ⟨w, actions, isAtlas, made⟩ := exists_actions c call
  rw [← made]
  exact Atlas.Addressable.foldl (isAtlas ▸ addressable) (isAtlas ▸ linked.orderly) actions

theorem addressable_run {calls : List Call} (linked : c.Linked) (addressable : c.atlas.Addressable)
    (run : Run c calls d) : d.atlas.Addressable := by
  induction run with
  | done c => exact addressable
  | more allowed _ ih => exact ih (linked_step linked allowed) (addressable_step linked addressable _)

theorem addressable_of_starts (starts : c.Starts) (limit : c.atlas.config.maxTextureId ≤ Atlas.noId) :
    c.atlas.Addressable := by
  obtain ⟨_, _, _, _, actions, created, rfl⟩ := starts
  exact ⟨⟨_, (Atlas.Numbered.of_create created).run (Atlas.orderly_of_create created) actions⟩, limit⟩

/-- A recipe is baked again after a texture that it depends on is set. -/
theorem mem_rebake_setTexture (linked : c.Linked) (cached : c.id? r = some id) {texture : Nat}
    (depends : texture ∈ r.dependencies) (view : TextureView) : id ∈ (c.setTexture texture view).rebake.2 := by
  have stale : r ∈ (c.setTexture texture view).stale := mem_stale.mpr
    (.inl ⟨texture, List.mem_append_right _ List.mem_cons_self, linked.noted r id cached texture depends⟩)
  exact mem_rebake.mpr ⟨r, stale, cached⟩

theorem raw_rebake (c : Cache) : c.rebake.1.raw = c.raw := by
  obtain ⟨_, _, same⟩ := rebake_eq c
  rw [same]

/-- Among others baked again, the picture of a recipe is handed to an atlas that has of its id what it had before. -/
theorem handed_foldl (linked : c.Linked) {rs : List Recipe} (once : rs.Nodup) (member : r ∈ rs)
    (cached : c.id? r = some id) (ids : List Nat) : ∃ a : Atlas, a.config = c.atlas.config ∧
      a.slot id = c.atlas.slot id ∧
      (rs.foldl refresh (c, ids)).1.atlas.slot id = (a.hand id (c.generate r)).1.slot id := by
  induction rs generalizing c ids with
  | nil => cases member
  | cons s rest ih =>
    obtain ⟨apart, once⟩ := List.nodup_cons.mp once
    rw [List.foldl_cons]
    by_cases same : s = r
    · subst same
      rw [refresh_of_id? cached]
      refine ⟨c.atlas, rfl, rfl, (spares_foldl rest _ fun other among isSame => ?_).2⟩
      exact apart (linked.distinct other s id isSame cached ▸ among)
    · have others : c.id? s ≠ some id := fun isSame => same (linked.distinct s r id isSame cached)
      have rebaked := rebaked_refresh linked ids s
      obtain ⟨a, config, slot, handed⟩ := ih (rebaked.linked linked) once
        ((List.mem_cons.mp member).resolve_left (Ne.symm same)) ((rebaked.id? r).trans cached) (refresh (c, ids) s).2
      rw [rebaked.generate] at handed
      exact ⟨a, config.trans (config_refresh c ids s), slot.trans (spares_refresh ids others).2, handed⟩

/-- What is kept for the host of an id is whole, and the atlas was handed it. -/
def Presents (c d : Cache) (id : Nat) : Prop :=
  ∃ view, d.baked.get? id = some view ∧ view.Whole ∧ (d.host? id).isSome ∧
    Handed c.atlas.config id view (c.atlas.slot id) (d.atlas.slot id)

/-- What is kept for the host of an id is malformed, and the atlas has the data of an earlier bake or none. -/
def Fails (c d : Cache) (id : Nat) : Prop :=
  ∃ view, d.baked.get? id = some view ∧ ¬view.Whole ∧
    (d.atlas.slot id = c.atlas.slot id ∨ d.atlas.slot id = (c.atlas.slot id).unplaced.rejected)

theorem not_presents_of_fails (fails : Fails c d id) : ¬Presents c d id := by
  obtain ⟨view, kept, malformed, _⟩ := fails
  rintro ⟨other, same, whole, _⟩
  cases kept.symm.trans same
  exact malformed whole

theorem isSome_host? {view : TextureView} (kept : c.baked.get? id = some view) (whole : view.Whole) :
    (c.host? id).isSome := by
  have usable : view.usable? = some view := if_pos (TextureView.isSome_image?.mpr whole)
  rw [host?, kept, Option.bind_some, usable, Option.isSome_or, Option.isSome_some, Bool.or_true]

section

variable (linked : c.Linked) (stale : r ∈ c.stale) (cached : c.id? r = some id)

include linked stale cached

theorem get?_baked_rebake : c.rebake.1.baked.get? id = some (c.generate r) := by
  rw [(rebaked_rebake linked).stored r id cached, if_pos stale]
  exact congrArg some (generate_of_eq rfl rfl)

/-- A bake hands the picture of a recipe to an atlas that takes data for its id, and has of it what it had before. -/
theorem handed_rebake (addressable : c.atlas.Addressable) : ∃ a : Atlas,
    (a.ignores id = false ∧ id < a.config.maxTextureId ∧ (a.slot id).isRegistered = true) ∧
    a.config = c.atlas.config ∧ a.slot id = c.atlas.slot id ∧
    c.rebake.1.atlas.slot id = (a.hand id (c.generate r)).1.slot id := by
  let cleared : Cache := { c with changedTextures := [], changedRecipes := [] }
  have linkedCleared : cleared.Linked := ⟨linked.orderly, linked.registered, linked.distinct, linked.noted⟩
  obtain ⟨a, config, slot, handed⟩ := handed_foldl linkedCleared (nodup_stale c) stale cached []
  have registered := linked.registered r id cached
  obtain ⟨heeded, inside⟩ := addressable.heeded registered
  refine ⟨a, ⟨?_, ?_, ?_⟩, config, slot, ?_⟩
  · rw [Atlas.ignores, config]
    exact heeded
  · rw [config]
    exact inside
  · rw [slot]
    exact registered
  · rw [show c.generate r = cleared.generate r from generate_of_eq rfl rfl]
    exact handed

theorem presents_of_grounded (addressable : c.atlas.Addressable) (grounded : c.Grounded r) :
    Presents c c.rebake.1 id := by
  have kept := get?_baked_rebake linked stale cached
  have whole := (whole_generate c r).mpr grounded
  obtain ⟨a, ⟨heeded, inside, registered⟩, config, slot, handed⟩ := handed_rebake linked stale cached addressable
  have taken := Atlas.handed_of_whole heeded inside registered whole
  rw [← handed, slot, config] at taken
  exact ⟨c.generate r, kept, whole, isSome_host? kept whole, taken⟩

theorem fails_of_not_grounded (addressable : c.atlas.Addressable) (malformed : ¬c.Grounded r) :
    Fails c c.rebake.1 id := by
  have kept := get?_baked_rebake linked stale cached
  have notWhole := mt (whole_generate c r).mp malformed
  obtain ⟨a, ⟨heeded, inside, registered⟩, _, slot, handed⟩ := handed_rebake linked stale cached addressable
  have left := Atlas.slot_hand_of_not_whole heeded inside registered notWhole
  rw [← handed, slot] at left
  exact ⟨c.generate r, kept, notWhole, left⟩

end

/-- Whatever is done with a cache, the recipe of an id that a bake tells has a whole picture, and the atlas has the
pixels of that picture or counts it as too large, just if the first texture that the recipe depends on is not stored
malformed. Otherwise that texture is kept as the picture, and the atlas goes on with the data of an earlier bake or has
none. -/
theorem presents_iff {calls : List Call} (starts : c.Starts) (limit : c.atlas.config.maxTextureId ≤ Atlas.noId)
    (run : Run c calls d) (told : id ∈ d.rebake.2) : ∃ r, d.id? r = some id ∧
      (Presents d d.rebake.1 id ↔ d.Grounded r) ∧
      (¬d.Grounded r → Fails d d.rebake.1 id ∧
        d.rebake.1.baked.get? id = r.dependencies.head?.bind d.raw.get?) := by
  have linked := linked_run (linked_of_starts starts) run
  have addressable := addressable_run (linked_of_starts starts) (addressable_of_starts starts limit) run
  obtain ⟨r, stale, cached⟩ := mem_rebake.mp told
  refine ⟨r, cached, ?_⟩
  by_cases grounded : d.Grounded r
  · have presents := presents_of_grounded linked stale cached addressable grounded
    exact ⟨iff_of_true presents grounded, fun malformed => absurd grounded malformed⟩
  · have fails := fails_of_not_grounded linked stale cached addressable grounded
    refine ⟨iff_of_false (not_presents_of_fails fails) grounded, fun malformed => ⟨fails, ?_⟩⟩
    rw [generate_of_not_grounded malformed, get?_baked_rebake linked stale cached]

/-- A recipe that lays texture 6 over texture 5. -/
def overlaid : Recipe :=
  .ofCode ((Bytecode.Instr.texture (Bytecode.Origin.texture 5)).encode ++
    (Bytecode.Instr.overlay (Bytecode.Origin.texture 6)).encode ++ [Bytecode.finishCode]).toArray

/-- A recipe is baked, and then a texture with fewer pixels than texels is set. -/
def shortening (r : Recipe) (texture : Nat) : List Call :=
  [.setTexture 5 ⟨1, 2, #[0xff204060, 0xff80a0c0]⟩, .get r, .rebake, .setTexture texture ⟨1, 2, #[0xff604020]⟩]

/-- The cache after so many of the calls. -/
def shortened (r : Recipe) (texture count : Nat) : Cache := ((shortening r texture).take count).foldl step roomy

theorem run_shortened (r : Recipe) (texture count : Nat) :
    Run roomy ((shortening r texture).take count) (shortened r texture count) := by
  refine run_foldl _ fun around action member => ?_
  exact absurd (List.mem_of_mem_take member) (by simp [shortening])

theorem told_shortened (r : Recipe) (texture : Nat) (entered : (shortened r texture 2).id? r = some 2)
    (depends : texture ∈ r.dependencies) :
    (shortened r texture 4).id? r = some 2 ∧ 2 ∈ (shortened r texture 4).rebake.2 := by
  have linked := fun count => linked_run (linked_of_starts starts_roomy) (run_shortened r texture count)
  have cached : (shortened r texture 3).id? r = some 2 := (id?_rebake (linked 2) r).trans entered
  exact ⟨cached, mem_rebake_setTexture (linked 3) cached depends _⟩

theorem raw_shortened (r : Recipe) (texture : Nat) : (shortened r texture 4).raw =
    (shortened r texture 2).raw.insert texture ⟨1, 2, #[0xff604020]⟩ :=
  congrArg (fun raw : Table Nat TextureView => raw.insert texture ⟨1, 2, #[0xff604020]⟩)
    (raw_rebake (shortened r texture 2))

/-- The second texture is malformed, and the first one is shown. -/
theorem presents_iff_overlaid : roomy.Starts ∧ roomy.atlas.config.maxTextureId ≤ Atlas.noId ∧
    Run roomy (shortening overlaid 6) (shortened overlaid 6 4) ∧ 2 ∈ (shortened overlaid 6 4).rebake.2 ∧
    Presents (shortened overlaid 6 4) (shortened overlaid 6 4).rebake.1 2 := by
  have limit : roomy.atlas.config.maxTextureId ≤ Atlas.noId := by decide
  have run := run_shortened overlaid 6 4
  obtain ⟨cached, told⟩ := told_shortened overlaid 6 (by decide +kernel) (by decide +kernel)
  obtain ⟨r, same, presents, _⟩ := presents_iff starts_roomy limit run told
  cases (linked_run (linked_of_starts starts_roomy) run).distinct r overlaid 2 same cached
  refine ⟨starts_roomy, limit, run, told, presents.mpr fun view isFirst => ?_⟩
  have first : overlaid.dependencies.head? = some 5 := by decide +kernel
  have stored : (shortened overlaid 6 2).raw.get? 5 = some ⟨1, 2, #[0xff204060, 0xff80a0c0]⟩ := by decide +kernel
  rw [first, Option.bind_some, raw_shortened, Table.get?_insert_of_ne _ _ (by decide), stored] at isFirst
  cases isFirst
  exact ⟨by decide, by decide, by decide⟩

/-- The only texture of a recipe becomes malformed after a bake. The next bake keeps it as the picture, which cannot be
shown. -/
theorem not_presents_shortened : roomy.Starts ∧ roomy.atlas.config.maxTextureId ≤ Atlas.noId ∧
    Run roomy (shortening plain 5) (shortened plain 5 4) ∧ 2 ∈ (shortened plain 5 4).rebake.2 ∧
    ¬Presents (shortened plain 5 4) (shortened plain 5 4).rebake.1 2 ∧
    (shortened plain 5 4).rebake.1.host? 2 = none := by
  have limit : roomy.atlas.config.maxTextureId ≤ Atlas.noId := by decide
  have run := run_shortened plain 5 4
  have linked := linked_run (linked_of_starts starts_roomy) run
  have addressable := addressable_run (linked_of_starts starts_roomy) (addressable_of_starts starts_roomy limit) run
  obtain ⟨cached, told⟩ := told_shortened plain 5 (by decide +kernel) (by decide +kernel)
  obtain ⟨other, stale, same⟩ := mem_rebake.mp told
  cases linked.distinct other plain 2 same cached
  have first : plain.dependencies.head?.bind (shortened plain 5 4).raw.get? = some ⟨1, 2, #[0xff604020]⟩ := by
    have first : plain.dependencies.head? = some 5 := by decide +kernel
    rw [first, Option.bind_some, raw_shortened, Table.get?_insert_self]
  have malformed : ¬(shortened plain 5 4).Grounded plain := by
    intro grounded
    exact absurd (grounded _ first).pixels (by decide)
  have fails := fails_of_not_grounded linked stale cached addressable malformed
  have absent := not_presents_of_fails fails
  obtain ⟨view, kept, notWhole, _⟩ := fails
  have unusable : view.usable? = none := if_neg (mt TextureView.isSome_image?.mp notWhole)
  have unknown : (shortened plain 5 4).rebake.1.raw.get? 2 = none := by
    have before : (shortened plain 5 2).raw.get? 2 = none := by decide +kernel
    rw [raw_rebake, raw_shortened, Table.get?_insert_of_ne _ _ (by decide), before]
  refine ⟨starts_roomy, limit, run, told, absent, ?_⟩
  rw [host?, unknown, kept, Option.bind_some, unusable]
  rfl

end Cache

end TextureLoom
