import TextureLoom.Proofs.Atlas.Keeping
import TextureLoom.Proofs.Atlas.Submitting

set_option autoImplicit false

namespace TextureLoom.Atlas

variable {accepted : Nat → Option PixelBuffer} {a b : Atlas} {id : Nat} {t : Texture} {p : Placement}

/-- The ids of an atlas are in order, whatever was recorded and run of its flushes. -/
structure Orderly (a : Atlas) : Prop where
  positive : 0 < a.alignment
  registry : ∃ accepted, Registry accepted a.config.maxTextureId a.slots a.entries a.freeIds a.nextId

/-- One atlas follows on another: its ids are in order, and those in use still are, some that may be given back
apart. -/
structure Succeeds (gone : Nat → Prop) (a b : Atlas) : Prop extends b.Orderly where
  registered : ∀ id, ¬gone id → (a.slot id).isRegistered = true → (b.slot id).isRegistered = true

variable {gone : Nat → Prop}

theorem Succeeds.refl (orderly : a.Orderly) : Succeeds gone a a := ⟨orderly, fun _ _ registered => registered⟩

theorem Succeeds.trans {c : Atlas} (first : Succeeds gone a b) (second : Succeeds gone b c) : Succeeds gone a c where
  toOrderly := second.toOrderly
  registered := fun id kept registered => second.registered id kept (first.registered id kept registered)

/-- A change of one id, which stays in use unless it may be given back. -/
theorem Succeeds.edit (orderly : a.Orderly) (edits : Edits id a b)
    (registry : Registry accepted b.config.maxTextureId b.slots b.entries b.freeIds b.nextId)
    (stays : ¬gone id → (a.slot id).isRegistered = true → (b.slot id).isRegistered = true) : Succeeds gone a b where
  positive := edits.alignment ▸ orderly.positive
  registry := ⟨accepted, registry⟩
  registered := by
    intro other kept
    by_cases same : other = id
    · subst same
      exact stays kept
    · rw [edits.slotOf other same]
      exact fun registered => registered

theorem Orderly.register (orderly : a.Orderly) : Succeeds gone a a.register.2 := by
  obtain ⟨_, registry⟩ := orderly.registry
  rcases handsOut_register registry with taken | handsOut
  · rw [taken]
    exact .refl orderly
  · refine .edit orderly handsOut.edits (handsOut.registry registry) fun _ _ => ?_
    rw [handsOut.slot]
    rfl

theorem Orderly.empty {left : Slot} (orderly : a.Orderly) (empties : Empties id left a b)
    (registered : (a.slot id).isRegistered = true) (stays : ¬gone id → left.isRegistered = true) :
    Succeeds gone a b := by
  obtain ⟨_, registry⟩ := orderly.registry
  refine .edit orderly empties.edits (empties.registry registry registered) fun kept _ => ?_
  rw [empties.slot]
  exact stays kept

theorem Orderly.set (orderly : a.Orderly) (id width height pitch : Nat) (bytes : ByteArray) :
    Succeeds gone a (a.set id width height pitch bytes).1 := by
  have sets := sets_set a id width height pitch bytes
  generalize a.set id width height pitch bytes = result at sets
  cases sets with
  | ignored _ => exact .refl orderly
  | refused _ => exact .refl orderly
  | rejected _ registered => exact orderly.empty (empties_reject registered) registered fun _ => rfl
  | loaded t _ registered reads =>
    obtain ⟨_, registry⟩ := orderly.registry
    have loads := loads_load registered t
    refine .edit orderly loads.edits (loads.registry registry registered reads) fun _ _ => ?_
    show (((a.load id t).slot id).status != .unused && ((a.load id t).slot id).status != .removed) = true
    rw [loads.pending]
    rfl

theorem Orderly.clear (orderly : a.Orderly) (id : Nat) : Succeeds gone a (a.clear id).1 := by
  unfold Atlas.clear
  split
  · exact .refl orderly
  · split
    · exact .refl orderly
    · rename_i checked
      have registered := isRegistered_of_check checked
      exact orderly.empty (empties_clear registered) registered fun _ => rfl

theorem Orderly.remove (orderly : a.Orderly) (id : Nat) : Succeeds (· = id) a (a.remove id).1 := by
  unfold Atlas.remove
  split
  · exact .refl orderly
  · split
    · exact .refl orderly
    · rename_i checked
      have registered := isRegistered_of_check checked
      have empties := empties_discard registered
      simp only
      generalize a.forget id Slot.discarded = b at empties
      have forgotten : Succeeds (· = id) a b := orderly.empty empties registered fun kept => absurd rfl kept
      obtain ⟨_, registry⟩ := orderly.registry
      have inUse := registry.not_mem_freeIds registered
      have after := (empties.registry registry registered).giveBack (congrArg Slot.status empties.slot)
        (empties.freeIds ▸ inUse)
      exact ⟨⟨forgotten.positive, _, after⟩, forgotten.registered⟩

theorem Orderly.flush (orderly : a.Orderly) (device : Device) (staging : Staging) :
    ∃ accepted, Frame.Keeps accepted a (a.flush device staging) := by
  obtain ⟨accepted, registry⟩ := orderly.registry
  refine ⟨accepted, Frame.Keeps.flush ⟨.refl registry, orderly.positive, ?_⟩⟩
  intro _ c member
  cases member

theorem Frame.Keeps.succeeds {f : Frame} (keeps : f.Keeps accepted a) : Succeeds gone a f.atlas where
  positive := keeps.atlas.alignment ▸ keeps.positive
  registry := ⟨accepted, keeps.atlas.registry⟩
  registered := fun id _ registered => keeps.atlas.registered id ▸ registered

/-- A new atlas has no id in use. -/
theorem orderly_of_create {c : Config} {device live : Device} {given : Option Staging} {staging : Staging}
    (created : Atlas.create c device given = .ok (a, live, staging)) : a.Orderly := by
  obtain ⟨_, _, handle, _, rfl⟩ := create_eq_ok_iff.mp created
  refine ⟨?_, _, registry_ofImage c _ _ _⟩
  show 0 < max live.alignment 4
  omega

namespace World

variable {w : World}

theorem atlas_step_set (w : World) (id width height pitch : Nat) (bytes : ByteArray) :
    (w.step (.set id width height pitch bytes)).atlas = (w.atlas.set id width height pitch bytes).1 := by
  have sets := sets_set w.atlas id width height pitch bytes
  simp only [World.step]
  generalize w.atlas.set id width height pitch bytes = result at sets
  cases sets with
  | ignored ignores => simp only [ignores, ↓reduceIte]
  | refused e => rfl
  | rejected e _ => rfl
  | loaded t notIgnored _ _ => simp only [notIgnored, Bool.false_eq_true, ↓reduceIte, accept]

/-- Each action keeps the ids in order, and in use but for one that it gives back. -/
theorem succeeds_step (orderly : w.atlas.Orderly) (action : Action) :
    Succeeds (fun id => action = .remove id) w.atlas (w.step action).atlas := by
  cases action with
  | register => exact orderly.register
  | set id width height pitch bytes =>
    rw [atlas_step_set]
    exact orderly.set id width height pitch bytes
  | clear id => exact orderly.clear id
  | remove id =>
    have removed := orderly.remove id
    exact ⟨removed.toOrderly, fun other kept => removed.registered other fun same => kept (by rw [same])⟩
  | flush =>
    obtain ⟨_, keeps⟩ := orderly.flush w.device w.staging
    exact keeps.succeeds
  | submit =>
    simp only [World.step]
    split <;> exact .refl orderly
  | reserve count alignment bytes =>
    simp only [World.step]
    split <;> exact .refl orderly
  | requestLayers _ | requestRepack _ | finish | limitMemory _ =>
    exact ⟨⟨orderly.positive, orderly.registry⟩, fun _ _ registered => registered⟩

theorem orderly_foldl (orderly : w.atlas.Orderly) (actions : List Action) :
    (actions.foldl World.step w).atlas.Orderly :=
  List.foldlRecOn (motive := fun w => w.atlas.Orderly) actions World.step orderly
    fun _ before action _ => (succeeds_step before action).toOrderly

end World

/-- An id without data fits whatever places it has. -/
theorem Fitted.edit_of_none (fitted : a.Fitted) (edits : Edits id a b) (none : (b.slot id).texture = none) :
    b.Fitted := by
  refine fitted.edit edits ?_ ?_
  · intro t p texture _
    rw [none] at texture
    cases texture
  · intro r t p _ texture _
    rw [none] at texture
    cases texture

/-- A plan loses the place of an id whose texture is replaced by one of another size, and nothing else. -/
theorem places_load (a : Atlas) (id : Nat) (t : Texture) :
    (a.load id t).repack.map (·.places) = (a.releaseResized id t.width t.height).repack.map (·.places) := by
  have joins : ∀ b : Atlas, (b.joinRepack id).repack.map (·.places) = b.repack.map (·.places) := by
    intro b
    rw [joinRepack, Option.map_map]
    congr 1
    funext r
    simp only [Function.comp_apply]
    split <;> rfl
  rw [load, joins]
  split <;> rfl

/-- Data for an id fits what it had, and what is planned for it unless the plan was made for data that it has lost. -/
theorem Fitted.load (fitted : a.Fitted) (sound : (a.slot id).Sound (accepted id))
    (registered : (a.slot id).isRegistered = true)
    (planned : ∀ r p, a.repack = some r → (a.slot id).texture = none → r.places.get? id = some p →
      p.Fits t a.config.padding) : (a.load id t).Fitted := by
  have loads := loads_load registered t
  have places := places_load a id t
  generalize a.load id t = b at loads places
  refine fitted.edit loads.edits ?_ ?_
  · intro u p texture placed
    cases loads.texture.symm.trans texture
    rcases loads.cases with ⟨_, slotOf, size⟩ | ⟨_, slotOf⟩
    · rw [placement?, slotOf] at placed
      have isPlaced : (a.slot id).place = some p := placed
      obtain ⟨old, isOld⟩ := Option.isSome_iff_exists.mp (sound.loaded (by rw [isPlaced]; rfl))
      exact (fitted.1 id old p isOld isPlaced).of_size (size old isOld)
    · rw [placement?, slotOf] at placed
      cases placed
  · intro r u p running texture found
    cases loads.texture.symm.trans texture
    rw [running] at places
    rcases releaseResized_cases a id t.width t.height with ⟨kept, size⟩ | released
    · rw [kept] at places
      obtain ⟨old, isOld, same⟩ := Option.map_eq_some_iff.mp places.symm
      have samePlaces : old.places = r.places := same
      rw [← samePlaces] at found
      rcases had : (a.slot id).texture with _ | before
      · exact planned old p isOld had found
      · exact (fitted.2 old id before p isOld had found).of_size (size before had)
    · rw [released] at places
      obtain ⟨old, isOld, same⟩ := Option.map_eq_some_iff.mp places.symm
      obtain ⟨earlier, _, rfl⟩ := Option.map_eq_some_iff.mp isOld
      have samePlaces : earlier.places.erase id = r.places := same
      rw [← samePlaces, Table.get?_erase_self] at found
      cases found

/-- What is planned for an id without data stays planned when data comes. -/
theorem planned_of_load {r : Repack} (running : a.repack = some r) (none : (a.slot id).texture = none) :
    ∃ after, (a.load id t).repack = some after ∧ after.places = r.places := by
  have places := places_load a id t
  have kept : a.releaseResized id t.width t.height = a := by rw [releaseResized, none]
  rw [kept, running] at places
  obtain ⟨after, isAfter, same⟩ := Option.map_eq_some_iff.mp places
  exact ⟨after, isAfter, same⟩

namespace World

variable {w : World}

/-- All places fit, and all that a flush copies from here on are textures in their own shapes. -/
structure Fits (w : World) : Prop where
  places : w.atlas.Fitted
  copies : ∀ c ∈ (w.atlas.flush w.device w.staging).commands.toList,
    c.CopiesTexture w.atlas (w.atlas.flush w.device w.staging).staging

/-- Data that is accepted for an id without data has the size that a running repack has planned for the id, if it
has. -/
def KeepsPlan (w : World) : Action → Prop
  | .set id width height pitch bytes => ∀ r p, w.atlas.repack = some r → r.places.get? id = some p →
      (w.atlas.slot id).texture = none → w.atlas.ignores id = false →
      (w.atlas.set id width height pitch bytes).2 = .ok () →
      p.width = width + 2 * w.atlas.config.padding ∧ p.height = height + 2 * w.atlas.config.padding
  | _ => True

theorem fits_of_fitted (orderly : w.atlas.Orderly) (fitted : w.atlas.Fitted) : w.Fits := by
  obtain ⟨_, keeps⟩ := orderly.flush w.device w.staging
  exact ⟨fitted, keeps.copies fitted⟩

/-- Data that comes for an id fits what a running repack has planned for it only if it has the size planned. -/
theorem keepsPlan_of_fitted_set {id width height pitch : Nat} {bytes : ByteArray}
    (after : (w.atlas.set id width height pitch bytes).1.Fitted) : w.KeepsPlan (.set id width height pitch bytes) := by
  have sets := sets_set w.atlas id width height pitch bytes
  intro r p running planned none heeded taken
  generalize w.atlas.set id width height pitch bytes = result at sets after taken
  cases sets with
  | ignored ignores =>
    rw [ignores] at heeded
    cases heeded
  | refused e => cases taken
  | rejected e _ => cases taken
  | loaded t _ registered reads =>
    obtain ⟨later, isLater, places⟩ := planned_of_load (t := t) running none
    have loads := loads_load registered t
    rw [← places] at planned
    have fits := after.2 later id t p isLater loads.texture planned
    rw [loads.edits.config] at fits
    have sameWidth : t.width = width := reads.width
    have sameHeight : t.height = height := reads.height
    exact ⟨sameWidth ▸ fits.width, sameHeight ▸ fits.height⟩

theorem fitted_set (orderly : w.atlas.Orderly) (fitted : w.atlas.Fitted) {id width height pitch : Nat}
    {bytes : ByteArray} (plan : w.KeepsPlan (.set id width height pitch bytes)) :
    (w.atlas.set id width height pitch bytes).1.Fitted := by
  have sets := sets_set w.atlas id width height pitch bytes
  rw [KeepsPlan] at plan
  generalize w.atlas.set id width height pitch bytes = result at sets plan
  cases sets with
  | ignored _ => exact fitted
  | refused e => exact fitted
  | rejected e registered =>
    have empties := empties_reject registered
    exact fitted.edit_of_none empties.edits (by rw [empties.slot]; rfl)
  | loaded t heeded registered reads =>
    obtain ⟨_, registry⟩ := orderly.registry
    refine fitted.load (registry.sound id) registered fun r p running none planned => ?_
    obtain ⟨isWidth, isHeight⟩ := plan r p running planned none heeded rfl
    exact ⟨reads.width.symm ▸ isWidth, reads.height.symm ▸ isHeight⟩

/-- What one action keeps. -/
theorem fitted_step_iff (orderly : w.atlas.Orderly) (fitted : w.atlas.Fitted) (action : Action) :
    (w.step action).atlas.Fitted ↔ w.KeepsPlan action := by
  cases action with
  | set id width height pitch bytes =>
    rw [atlas_step_set]
    exact ⟨keepsPlan_of_fitted_set, fitted_set orderly fitted⟩
  | register =>
    refine iff_of_true ?_ trivial
    obtain ⟨_, registry⟩ := orderly.registry
    rw [step]
    rcases handsOut_register registry with taken | handsOut
    · rw [taken]
      exact fitted
    · exact fitted.edit_of_none handsOut.edits (by rw [handsOut.slot]; rfl)
  | clear id =>
    refine iff_of_true ?_ trivial
    rw [step, Atlas.clear]
    split
    · exact fitted
    · split
      · exact fitted
      · rename_i checked
        have empties := empties_clear (isRegistered_of_check checked)
        exact fitted.edit_of_none empties.edits (by rw [empties.slot]; rfl)
  | remove id =>
    refine iff_of_true ?_ trivial
    rw [step, Atlas.remove]
    split
    · exact fitted
    · split
      · exact fitted
      · rename_i checked
        have empties := empties_discard (isRegistered_of_check checked)
        have forgotten : (w.atlas.forget id Slot.discarded).Fitted :=
          fitted.edit_of_none empties.edits (by rw [empties.slot]; rfl)
        exact forgotten
  | flush =>
    obtain ⟨_, keeps⟩ := orderly.flush w.device w.staging
    exact iff_of_true (keeps.atlas.fitted fitted) trivial
  | submit =>
    refine iff_of_true ?_ trivial
    simp only [step]
    split <;> exact fitted
  | reserve count alignment bytes =>
    refine iff_of_true ?_ trivial
    simp only [step]
    split <;> exact fitted
  | finish =>
    refine iff_of_true ⟨fitted.1, ?_⟩ trivial
    intro r id t p running texture planned
    obtain ⟨old, isOld, rfl⟩ := Option.map_eq_some_iff.mp running
    refine fitted.2 old id t p isOld texture ?_
    split at planned <;> exact planned
  | requestLayers _ | requestRepack _ | limitMemory _ => exact iff_of_true fitted trivial

theorem fitted_foldl (orderly : w.atlas.Orderly) (fitted : w.atlas.Fitted) {actions : List Action}
    (plans : ∀ done action, done ++ [action] <+: actions → (done.foldl step w).KeepsPlan action) :
    (actions.foldl step w).atlas.Fitted := by
  induction actions generalizing w with
  | nil => exact fitted
  | cons action rest ih =>
    have first := (fitted_step_iff orderly fitted action).mpr (plans [] action (by simp))
    refine ih (succeeds_step orderly action).toOrderly first fun done next isPrefix => ?_
    exact plans (action :: done) next ((List.prefix_cons_inj action).mpr isPrefix)

theorem fitted_of_create {c : Config} {device : Device} {given : Option Staging}
    (created : Atlas.create c device given = .ok (w.atlas, w.device, w.staging)) : w.atlas.Fitted := by
  obtain ⟨_, _, handle, _, isAtlas⟩ := create_eq_ok_iff.mp created
  rw [isAtlas]
  refine ⟨fun id t p texture _ => ?_, fun r _ _ _ running => by cases running⟩
  rw [slot_ofImage] at texture
  cases texture

/-- In all states of a run the places fit, just if all data that is set for ids without data keeps to the plan of the
repack that runs then. -/
theorem fits_iff_keepsPlan {c : Config} {device : Device} {given : Option Staging}
    (created : Atlas.create c device given = .ok (w.atlas, w.device, w.staging)) (actions : List Action) :
    (∀ done, done <+: actions → (done.foldl step w).Fits) ↔
      ∀ done action, done ++ [action] <+: actions → (done.foldl step w).KeepsPlan action := by
  have orderly := orderly_of_create created
  have orderlyAt := orderly_foldl orderly
  constructor
  · intro fits done action isPrefix
    have before := (fits done ((List.prefix_append done [action]).trans isPrefix)).places
    have after := (fits (done ++ [action]) isPrefix).places
    rw [List.foldl_append] at after
    exact (fitted_step_iff (orderlyAt done) before action).mp after
  · intro plans done isPrefix
    apply fits_of_fitted (orderlyAt done)
    exact fitted_foldl orderly (fitted_of_create created) fun earlier action split =>
      plans earlier action (split.trans isPrefix)

theorem keepsPlan_of_cons {first : Action} {rest : List Action} (head : w.KeepsPlan first)
    (tail : ∀ done action, done ++ [action] <+: rest → (done.foldl step (w.step first)).KeepsPlan action) :
    ∀ done action, done ++ [action] <+: first :: rest → (done.foldl step w).KeepsPlan action := by
  intro done action isPrefix
  cases done with
  | nil =>
    rw [List.nil_append, List.cons_prefix_cons] at isPrefix
    exact isPrefix.1 ▸ head
  | cons other done =>
    rw [List.cons_append, List.cons_prefix_cons] at isPrefix
    exact isPrefix.1 ▸ tail done action isPrefix.2

/-- A repack starts with a texture of one texel, and the texture is cleared while the repack runs. -/
def clearedMeanwhile : List Action :=
  [.register, .set 2 1 1 0 ⟨#[200, 100, 50, 255]⟩, .requestRepack .keepCapacity, .flush, .clear 2]

/-- The place stays planned, and data of any size is taken. -/
theorem planned_clearedMeanwhile :
    let a := (clearedMeanwhile.foldl step sample).atlas
    (a.repack.bind fun r => r.places.get? 2) = some ⟨0, 0, 3, 3, 0⟩ ∧ a.config.padding = 1 ∧
      (a.slot 2).texture.isNone ∧ a.ignores 2 = false ∧
      (a.set 2 2 2 0 ⟨Array.replicate 16 255⟩).2.toOption = some () := by
  decide +kernel

/-- Data of the size it had keeps to the plan. -/
theorem clearedMeanwhile_fits : sample.Starts ∧
    ∀ done, done <+: clearedMeanwhile ++ [.set 2 1 1 0 ⟨#[10, 20, 30, 255]⟩] → (done.foldl step sample).Fits := by
  obtain ⟨isPlanned, padding, _⟩ := planned_clearedMeanwhile
  obtain ⟨_, _, _, _, created, _⟩ := starts_sample
  refine ⟨starts_sample, (fits_iff_keepsPlan created _).mpr ?_⟩
  refine keepsPlan_of_cons trivial (keepsPlan_of_cons ?_ (keepsPlan_of_cons trivial (keepsPlan_of_cons trivial
    (keepsPlan_of_cons trivial (keepsPlan_of_cons ?_ ?_)))))
  · intro r p running
    cases running
  · show (clearedMeanwhile.foldl step sample).KeepsPlan (.set 2 1 1 0 ⟨#[10, 20, 30, 255]⟩)
    intro r p running planned _ _ _
    rw [running, Option.bind_some, planned] at isPlanned
    cases isPlanned
    rw [padding]
    exact ⟨rfl, rfl⟩
  · intro done action isPrefix
    rw [List.prefix_nil] at isPrefix
    exact absurd isPrefix (by simp)

/-- The four texels of another size are planned to be copied to a place for one. -/
theorem clearedMeanwhile_not_fits :
    ¬((clearedMeanwhile ++ [Action.set 2 2 2 0 ⟨Array.replicate 16 255⟩]).foldl step sample).Fits := by
  obtain ⟨isPlanned, padding, none, heeded, taken⟩ := planned_clearedMeanwhile
  have accepted : ((clearedMeanwhile.foldl step sample).atlas.set 2 2 2 0 ⟨Array.replicate 16 255⟩).2 = .ok () := by
    generalize ((clearedMeanwhile.foldl step sample).atlas.set 2 2 2 0 ⟨Array.replicate 16 255⟩).2 = result at taken ⊢
    cases result with
    | error e => cases taken
    | ok _ => rfl
  intro fits
  have after := fits.places
  rw [List.foldl_append, List.foldl_cons, List.foldl_nil, atlas_step_set] at after
  have plan := keepsPlan_of_fitted_set after
  obtain ⟨r, running, planned⟩ := Option.bind_eq_some_iff.mp isPlanned
  obtain ⟨width, _⟩ := plan r _ running planned (Option.isNone_iff_eq_none.mp none) heeded accepted
  rw [padding] at width
  cases width

end World

end TextureLoom.Atlas
