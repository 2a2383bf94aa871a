import TextureLoom.Proofs.Cache.Rebaking

set_option autoImplicit false

namespace TextureLoom

open Bytecode (AnimParams AnimSpec)

/-- Sizes of textures, by id. -/
abbrev Sheets := Nat → Option (Nat × Nat)

namespace Image

variable {params : AnimParams}

/-- Frames that have passed at a time, counted without end. -/
def framesPassed (seconds : Float) (rate : UInt16) : Nat := (frameTime seconds rate).floor.toUInt64.toNat

/-- Frames of a sheet with a size. -/
def frameCount (size : Nat × Nat) (params : AnimParams) : Nat := (frameLayout size.1 size.2 params).count

theorem index_framePosition (size : Nat × Nat) (params : AnimParams) (seconds : Float) :
    (framePosition seconds params.rate (frameLayout size.1 size.2 params).count).index =
      framesPassed seconds params.rate % frameCount size params := by
  have positive : max (frameLayout size.1 size.2 params).count 1 = frameCount size params := by
    simp [frameCount, frameLayout]
  rw [← positive]
  rfl

/-- A sheet without blending shows the same at two times when it shows the frame with the same number. -/
theorem animate_congr {sheet : Image} {earlier later : Float} (stepwise : params.isSmooth = false)
    (same : framesPassed earlier params.rate % frameCount (sheet.width, sheet.height) params =
      framesPassed later params.rate % frameCount (sheet.width, sheet.height) params) :
    sheet.animate params earlier = sheet.animate params later := by
  have first := index_framePosition (sheet.width, sheet.height) params earlier
  have second := index_framePosition (sheet.width, sheet.height) params later
  dsimp only at first second
  simp only [animate, stepwise, Bool.false_eq_true, if_false, first, second, same]

end Image

open Image (framesPassed frameCount)

/-- The size of a texture whose image is known. -/
theorem size_of_image? {provider : Provider} {texture : Nat} {sheet : Image}
    (image : provider.image? texture = some sheet) :
    (provider texture).map (fun view => (view.width, view.height)) = some (sheet.width, sheet.height) := by
  obtain ⟨view, found, shown⟩ := Option.bind_eq_some_iff.mp image
  rw [found, Option.map_some]
  simp only [TextureView.image?] at shown
  split at shown
  · cases shown
  · cases shown
    rfl

namespace Animation

variable {a : Animation} {specs : List AnimSpec} {spec : AnimSpec} {seen now : Sheets} {earlier seconds : Float}

theorem frameAt_of_size {texture : Nat} {size : Nat × Nat} (isTexture : spec.texture = some texture)
    (found : now texture = some size) :
    frameAt now seconds spec = framesPassed seconds spec.params.rate % frameCount size spec.params := by
  rw [frameAt, isTexture, Option.bind_some, found]
  exact Image.index_framePosition size spec.params seconds

theorem frameAt_of_none (none : spec.texture.bind now = none) :
    frameAt now seconds spec = framesPassed seconds spec.params.rate := by
  rw [frameAt, none]
  rfl

/-- An animation has tracks for some specs, and each frame that it remembers is what a track shows by the sheets seen
at a time. -/
structure Recalls (a : Animation) (specs : List AnimSpec) (seen : Sheets) (seconds : Float) : Prop where
  specs : a.tracks.map (·.1) = specs
  frames : ∀ spec frame, (spec, some frame) ∈ a.tracks → frame = frameAt seen seconds spec

/-- All frames remembered were counted on sheets with as many frames as there are on the sheets now. -/
def SameCounts (a : Animation) (seen now : Sheets) : Prop :=
  ∀ spec frame, (spec, some frame) ∈ a.tracks → ∀ texture old new, spec.texture = some texture →
    seen texture = some old → now texture = some new → frameCount old spec.params = frameCount new spec.params

theorem recalls_start (started : start? specs = some a) : a.Recalls specs seen seconds := by
  rw [start?] at started
  split at started
  · cases started
  · cases started
    constructor
    · simp [Function.comp_def]
    · intro spec frame track
      simp at track

theorem recalls_advance (tracks : a.tracks.map (·.1) = specs) :
    (a.advance seconds now).2.Recalls specs now seconds where
  specs := by
    rw [← tracks]
    simp [advance]
  frames := by
    intro spec frame track
    simp only [advance, List.mem_map] at track
    obtain ⟨before, _, same⟩ := track
    cases same
    rfl

theorem eq_of_advance {last : Option Nat} (unmoved : (a.advance seconds now).1 = false)
    (track : (spec, last) ∈ a.tracks) : spec.params.isSmooth = false ∧ last = some (frameAt now seconds spec) := by
  have same := List.any_eq_false.mp unmoved (spec, last) track
  simpa using same

/-- The number of the frame tells what a sheet shows, if it was counted on as many frames before. -/
theorem still_of_frameAt {provider : Provider}
    (sizes : ∀ texture sheet, provider.image? texture = some sheet → now texture = some (sheet.width, sheet.height))
    (stepwise : spec.params.isSmooth = false) (same : frameAt seen earlier spec = frameAt now seconds spec)
    (counts : ∀ texture old new, spec.texture = some texture → seen texture = some old → now texture = some new →
      frameCount old spec.params = frameCount new spec.params) :
    Bake.Setting.Still ⟨provider, seconds⟩ ⟨provider, earlier⟩ spec := by
  intro sheet shown
  refine Image.animate_congr stepwise ?_
  cases isTexture : spec.texture with
  | none =>
    rw [frameAt_of_none (by rw [isTexture]; rfl), frameAt_of_none (by rw [isTexture]; rfl)] at same
    rw [same]
  | some texture =>
    have size := sizes texture sheet (shown texture isTexture)
    rw [frameAt_of_size isTexture size] at same
    cases before : seen texture with
    | none =>
      -- The frame was counted without end, and it is within the sheet.
      rw [frameAt_of_none (by rw [isTexture]; exact before)] at same
      rw [same, Nat.mod_mod]
    | some old =>
      rw [frameAt_of_size isTexture before, counts texture old _ isTexture before size] at same
      exact same.symm

end Animation

namespace Cache

variable {c d : Cache} {seen : Sheets} {r s : Recipe} {id : Nat} {seconds : Float}

/-- The sizes that animations go by, once a call has been made. -/
def seenAfter (c : Cache) (seen : Sheets) : Call → Sheets
  | .animate _ => c.sheetSize?
  | _ => seen

/-- Of the recipes that are not to be baked again, no animation has its sheet replaced by one with another number of
frames. -/
def KeepsCounts (c : Cache) (seen : Sheets) : Prop :=
  ∀ r a, c.animated.get? r = some a → r ∉ c.stale → a.SameCounts seen c.sheetSize?

/-- At each step of time, the sheets have the numbers of frames that they had at the step before. -/
def Steady (c : Cache) (seen : Sheets) : List Call → Prop
  | [] => True
  | call :: rest =>
    (∀ seconds, call = .animate seconds → c.KeepsCounts seen) ∧ (c.step call).Steady (c.seenAfter seen call) rest

/-- What animations of cached recipes remember is what they showed at the time of the cache. -/
def Remembers (c : Cache) (seen : Sheets) : Prop :=
  ∀ r id, c.id? r = some id → r.animations ≠ [] →
    ∃ a, c.animated.get? r = some a ∧ a.Recalls r.animations seen c.seconds

/-- A cache without new recipes, at the same time. -/
theorem Remembers.keep (remembers : c.Remembers seen) (seconds : d.seconds = c.seconds)
    (ids : ∀ r id, d.id? r = some id → c.id? r = some id ∧ d.animated.get? r = c.animated.get? r) :
    d.Remembers seen := by
  intro r id cached animated
  obtain ⟨before, same⟩ := ids r id cached
  rw [same, seconds]
  exact remembers r id before animated

theorem get?_animated_enter_self {a : Animation} (started : Animation.start? s.animations = some a) :
    (c.enter s id).animated.get? s = some a := by
  simp only [enter, started, Table.get?_insert_self]

theorem get?_animated_enter_of_ne (different : r ≠ s) :
    (c.enter s id).animated.get? r = c.animated.get? r := by
  cases started : Animation.start? s.animations with
  | none => simp only [enter, started]
  | some a => simp only [enter, started, Table.get?_insert_of_ne _ _ different]

theorem remembers_enter (remembers : c.Remembers seen) : (c.enter s id).Remembers seen := by
  intro r other cached animated
  rw [id?_enter] at cached
  split at cached
  · rename_i new
    subst new
    cases started : Animation.start? r.animations with
    | none => simp [Animation.start?, animated] at started
    | some a => exact ⟨a, get?_animated_enter_self started, Animation.recalls_start started⟩
  · rename_i different
    rw [get?_animated_enter_of_ne different]
    exact remembers r other cached animated

theorem remembers_get (remembers : c.Remembers seen) (s : Recipe) : (c.get s).2.Remembers seen := by
  rcases get_cases c s with ⟨_, _, same⟩ | ⟨_, ⟨_, same⟩ | ⟨_, same⟩⟩ <;> rw [same]
  · exact remembers
  · exact remembers
  · exact remembers_enter remembers

theorem remembers_free (remembers : c.Remembers seen) (s : Recipe) : (c.free s).1.Remembers seen := by
  have ids : ∀ r id, (c.free s).1.id? r = some id → r ≠ s ∧ c.id? r = some id := fun _ _ => id?_free
  cases freed : c.id? s with
  | none =>
    rw [free_of_none freed]
    exact remembers
  | some gone =>
    rw [free_of_id? freed] at ids ⊢
    refine remembers.keep rfl fun r id cached => ?_
    obtain ⟨different, before⟩ := ids r id cached
    exact ⟨before, Table.get?_erase_of_ne c.animated different⟩

theorem get?_animated_animate (c : Cache) (seconds : Float) (r : Recipe) :
    (c.animate seconds).1.animated.get? r =
      (c.animated.get? r).map fun a => (a.advance seconds c.sheetSize?).2 := by
  rw [← Table.get?_map]
  simp only [animate, List.map_map]
  rfl

theorem remembers_animate (remembers : c.Remembers seen) (seconds : Float) :
    (c.animate seconds).1.Remembers c.sheetSize? := by
  intro r id cached animated
  obtain ⟨a, found, recalls⟩ := remembers r id cached animated
  rw [get?_animated_animate, found]
  exact ⟨_, rfl, Animation.recalls_advance recalls.specs⟩

theorem remembers_rebake (linked : c.Linked) (remembers : c.Remembers seen) : c.rebake.1.Remembers seen := by
  have rebaked := rebaked_rebake linked
  refine remembers.keep ?_ fun r id cached => ⟨rebaked.id? r ▸ cached, ?_⟩ <;> rw [rebaked.others]

theorem remembers_step (linked : c.Linked) (remembers : c.Remembers seen) (call : Call) :
    (c.step call).Remembers (c.seenAfter seen call) := by
  cases call with
  | get r => exact remembers_get remembers r
  | free r => exact remembers_free remembers r
  | animate seconds => exact remembers_animate remembers seconds
  | rebake => exact remembers_rebake linked remembers
  | setTexture _ _ | freeTexture _ | direct _ _ => exact remembers

/-- A recipe is marked when one of its animations moves. -/
theorem mem_changedRecipes_animate {a : Animation} (found : c.animated.get? r = some a)
    (moved : (a.advance seconds c.sheetSize?).1 = true) : r ∈ (c.animate seconds).1.changedRecipes := by
  simp only [animate, List.mem_append, List.mem_map, List.mem_filter]
  refine .inr ⟨_, ⟨⟨(r, a), Table.mem_of_get? found, rfl⟩, moved⟩, rfl⟩

theorem heeds_of_keepsCounts (remembers : c.Remembers seen) (counts : c.KeepsCounts seen)
    (cached : c.id? r = some id) : c.Heeds seconds r := by
  by_cases stale : r ∈ c.stale
  · exact .inl (stale_animate seconds stale)
  by_cases animated : r.animations = []
  · refine .inr ?_
    rw [animated]
    exact fun spec member => nomatch member
  obtain ⟨a, found, recalls⟩ := remembers r id cached animated
  cases moved : (a.advance seconds c.sheetSize?).1 with
  | true => exact .inl (mem_stale.mpr (.inr (mem_changedRecipes_animate found moved)))
  | false =>
    refine .inr fun spec member => ?_
    rw [← recalls.specs] at member
    obtain ⟨⟨_, last⟩, track, rfl⟩ := List.mem_map.mp member
    obtain ⟨stepwise, rfl⟩ := Animation.eq_of_advance moved track
    exact Animation.still_of_frameAt (fun _ _ => size_of_image?) stepwise (recalls.frames _ _ track).symm
      (counts r a found stale _ _ track)

/-- Through a run in which the sheets keep their numbers of frames, each cached recipe is always fresh. -/
theorem fresh_of_steady {calls : List Call} (run : Run c calls d) (linked : c.Linked) (remembers : c.Remembers seen)
    (steady : c.Steady seen calls) (fresh : ∀ id, c.id? r = some id → c.Fresh r id) :
    ∀ id, d.id? r = some id → d.Fresh r id := by
  induction run generalizing seen with
  | done c => exact fresh
  | more allowed _ ih =>
    obtain ⟨counts, steadyLater⟩ := steady
    refine ih (linked_step linked allowed) (remembers_step linked remembers _) steadyLater fun id cached => ?_
    refine fresh_step linked fresh ?_ cached
    rintro seconds rfl
    exact heeds_of_keepsCounts remembers (counts seconds rfl) cached

theorem remembers_of_starts (starts : c.Starts) : c.Remembers seen := by
  obtain ⟨_, _, _, _, _, _, rfl⟩ := starts
  intro r id cached
  cases cached

/-- A step of time and a bake bring all cached recipes to that time, as long as no sheet is replaced between two steps
of time by one with another number of frames. -/
theorem stored_at_time {calls : List Call} (starts : c.Starts)
    (run : Run c (calls ++ [Call.animate seconds, Call.rebake]) d)
    (steady : c.Steady (fun _ => none) (calls ++ [Call.animate seconds])) (cached : d.id? r = some id) :
    d.seconds = seconds ∧ d.baked.get? id = some (d.generate r) := by
  rw [List.append_cons] at run
  obtain ⟨before, earlier, _, rfl⟩ := run.last
  have linked := linked_of_starts starts
  have fresh : before.id? r = some id → before.Fresh r id :=
    fresh_of_steady earlier linked (remembers_of_starts starts) steady (fun id => fresh_of_starts starts) id
  have linkedBefore := linked_run linked earlier
  refine ⟨?_, stored_of_rebake linkedBefore fresh cached⟩
  obtain ⟨_, _, _, rfl⟩ := earlier.last
  show (rebake _).1.seconds = seconds
  rw [(rebaked_rebake linkedBefore).others]
  rfl

theorem sheetSize?_setTexture {texture : TextureView} (same : c.sheetSize? id = some (texture.width, texture.height)) :
    (c.setTexture id texture).sheetSize? = c.sheetSize? := by
  funext other
  by_cases replaced : other = id
  · rw [replaced, same, sheetSize?, setTexture, Table.get?_insert_self]
    rfl
  · rw [sheetSize?, setTexture, Table.get?_insert_of_ne _ _ replaced]
    rfl

theorem sheetSize?_rebake (linked : c.Linked) : c.rebake.1.sheetSize? = c.sheetSize? := by
  rw [(rebaked_rebake linked).others]
  rfl

theorem id?_rebake (linked : c.Linked) (r : Recipe) : c.rebake.1.id? r = c.id? r := (rebaked_rebake linked).id? r

/-- Sheets of the same sizes have the same numbers of frames. -/
theorem keepsCounts_of_eq (same : c.sheetSize? = seen) : c.KeepsCounts seen := by
  intro r a _ _ spec frame _ texture old new _ before after
  rw [same, before] at after
  cases after
  rfl

/-- An animation with a frame for each row of a sheet. -/
def turning : Recipe :=
  .ofCode ((Bytecode.Instr.sheet (Bytecode.Origin.texture 5) ⟨0, 1, 0, 0, 0⟩).encode ++ [Bytecode.finishCode]).toArray

/-- Between two steps of time, the sheet is replaced by one of the same size. -/
def repainting : List Call :=
  [.setTexture 5 ⟨1, 2, #[0xff204060, 0xff80a0c0]⟩, .get turning, .animate 1, .rebake,
    .setTexture 5 ⟨1, 2, #[0xff604020, 0xffc0a080]⟩, .rebake]

/-- The cache after so many of the calls and of those that bring it to the second step. -/
def repainted (count : Nat) : Cache :=
  ((repainting ++ [Call.animate 2, Call.rebake]).take count).foldl step (ofAtlas Atlas.World.sample.atlas)

theorem stored_at_time_repainting : (repainted 0).Starts ∧
    Run (repainted 0) (repainting ++ [Call.animate 2, Call.rebake]) (repainted 8) ∧
    (repainted 0).Steady (fun _ => none) (repainting ++ [Call.animate 2]) ∧ (repainted 8).id? turning = some 2 ∧
    (repainted 8).seconds = 2 ∧ (repainted 8).baked.get? 2 = some ((repainted 8).generate turning) := by
  have starts : (repainted 0).Starts := starts_sample
  have run : ∀ count,
      Run (repainted 0) ((repainting ++ [Call.animate 2, Call.rebake]).take count) (repainted count) := by
    intro count
    apply run_foldl
    intro around action member
    exact absurd (List.mem_of_mem_take member) (by simp [repainting])
  have linked := fun count => linked_run (linked_of_starts starts) (run count)
  have size : (repainted 3).sheetSize? 5 = some (1, 2) := by decide +kernel
  have rebaked : (repainted 4).sheetSize? = (repainted 3).sheetSize? := sheetSize?_rebake (linked 3)
  have sheets : (repainted 6).sheetSize? = (repainted 3).sheetSize? := calc
    (repainted 6).sheetSize? = (repainted 5).sheetSize? := sheetSize?_rebake (linked 5)
    _ = (repainted 4).sheetSize? := sheetSize?_setTexture ((congrFun rebaked 5).trans size)
    _ = (repainted 3).sheetSize? := rebaked
  have steady : (repainted 0).Steady (fun _ => none) (repainting ++ [Call.animate 2]) := by
    refine ⟨nofun, nofun, ?_, nofun, nofun, nofun, fun _ _ => keepsCounts_of_eq sheets, trivial⟩
    intro seconds _ r a _ _ spec frame _ texture old new _ before
    cases before
  have entered : (repainted 3).id? turning = some 2 := by decide +kernel
  have cached : (repainted 8).id? turning = some 2 := calc
    (repainted 8).id? turning = (repainted 6).id? turning := id?_rebake (linked 7) turning
    _ = (repainted 4).id? turning := id?_rebake (linked 5) turning
    _ = (repainted 3).id? turning := id?_rebake (linked 3) turning
    _ = some 2 := entered
  exact ⟨starts, run 8, steady, cached, stored_at_time starts (run 8) steady cached⟩

end Cache

end TextureLoom
