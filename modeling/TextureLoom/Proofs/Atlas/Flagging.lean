import TextureLoom.Proofs.Atlas.Catching
import TextureLoom.Proofs.Atlas.Settling

set_option autoImplicit false

namespace TextureLoom.Atlas

variable {accepted : Nat → Option PixelBuffer} {a b c : Atlas} {f : Frame} {id : Nat} {r : Repack}

/-- The flags of the row of an id. -/
def flags? (a : Atlas) (id : Nat) : Option UInt32 := (a.entry? id).map (·.flags)

/-- The flags that a slot calls for. -/
def Slot.flags (s : Slot) : UInt32 :=
  match s.status with
  | .tooLarge => Entry.tooLargeFlag
  | .valid => Entry.validFlag
  | .pendingUpload => if s.shown then Entry.validFlag else Entry.pendingFlag
  | .unused | .registered | .removed => 0

/-- A row has the flags that its slot calls for, unless a repack has marked again what was refused before it was
cleared. -/
theorem Labels.flags_eq {side : Nat} {s : Slot} {e : Entry} (labels : Labels side s e) :
    e.flags = s.flags ∨ s.status = .registered ∧ s.refused = true ∧ e = .tooLarge := by
  cases labels with
  | vacant unused _ =>
    refine Or.inl ?_
    rw [Slot.flags]
    split <;> simp_all [Slot.isRegistered, Entry.blank]
  | empty status _ _ =>
    refine Or.inl ?_
    rw [Slot.flags, status]
    rfl
  | marked status _ _ refused => exact Or.inr ⟨status, refused, rfl⟩
  | refused status _ _ _ =>
    refine Or.inl ?_
    rw [Slot.flags, status]
    rfl
  | waiting status _ unshown =>
    refine Or.inl ?_
    rw [Slot.flags, status]
    simp only [unshown]
    rfl
  | shown status _ _ isShown =>
    refine Or.inl ?_
    rcases status with status | status
    · rw [Slot.flags, status]
      simp only [isShown]
      rfl
    · rw [Slot.flags, status]
      rfl

theorem LabelledAt.flags? (labelled : a.LabelledAt id) : a.flags? id = some (a.slot id).flags ∨
    (a.slot id).status = .registered ∧ (a.slot id).refused = true ∧ a.flags? id = some Entry.tooLargeFlag := by
  obtain ⟨e, row, labels⟩ := labelled
  have rowOf : a.entry? id = some e := row
  rw [Atlas.flags?, rowOf]
  rcases labels.flags_eq with flags | ⟨status, refused, rfl⟩
  · exact Or.inl (congrArg some flags)
  · exact Or.inr ⟨status, refused, rfl⟩

namespace Labelled

theorem placed_of_shown (labelled : Labelled accepted a) (isShown : (a.slot id).shown = true) :
    (a.slot id).place.isSome := by
  rcases labelled.slot_cases id with unused | ⟨e, _, labels⟩
  · cases (congrArg Slot.shown unused).symm.trans isShown
  · obtain ⟨p, placed, _⟩ := labels.placed isShown
    rw [placed]
    rfl

theorem unshown_of_vacant (labelled : Labelled accepted a) (unused : (a.slot id).isRegistered = false) :
    (a.slot id).shown = false := by
  rcases labelled.slot_cases id with same | ⟨e, _, labels⟩
  · rw [same]
  · exact (labels.of_vacant unused).1

theorem shown_of_valid (labelled : Labelled accepted a) (valid : (a.slot id).status = .valid) :
    (a.slot id).shown = true := by
  obtain ⟨e, _, labels⟩ := labelled.labelledAt id (by rw [valid]; decide)
  have slotSound : (a.slot id).Sound (accepted id) := labelled.registry.sound id
  rcases labels.of_texture (Slot.isRegistered_of_valid valid) (slotSound.texture_of_valid valid) with ⟨_, status, _⟩ |
    isShown
  · cases status.symm.trans valid
  · exact isShown

theorem empty_of_registered (labelled : Labelled accepted a) (status : (a.slot id).status = .registered) :
    (a.slot id).texture = none := by
  obtain ⟨e, _, labels⟩ := labelled.labelledAt id (by rw [status]; decide)
  have registered := Slot.isRegistered_of_registered status
  rcases texture : (a.slot id).texture with _ | t
  · rfl
  · rcases labels.of_texture registered (by rw [texture]; rfl) with ⟨_, pending, _⟩ | isShown
    · cases pending.symm.trans status
    · obtain ⟨_, _, _, uploaded | uploaded, _⟩ := labels.placed isShown <;> cases uploaded.symm.trans status

/-- An action that is served leaves an id as uploaded just if it leaves its place. -/
theorem shown_restates (labelled : Labelled accepted a) (restates : Restates id a b) :
    (b.slot id).shown = true ↔ (a.slot id).shown = true ∧ b.placement? id = a.placement? id := by
  have lost : (b.slot id).shown = false → (b.slot id).place = none →
      ((b.slot id).shown = true ↔ (a.slot id).shown = true ∧ b.placement? id = a.placement? id) := by
    intro unshown unplaced
    refine iff_of_false (Bool.eq_false_iff.mp unshown) ?_
    rintro ⟨isShown, same⟩
    have placed := labelled.placed_of_shown isShown
    rw [show (a.slot id).place = none from same.symm.trans unplaced] at placed
    cases placed
  cases restates with
  | kept slot _ => simp only [placement?, slot, and_true]
  | handedOut _ _ slot _ => exact lost (by rw [slot]; rfl) (by rw [slot]; rfl)
  | rejected _ slot _ => exact lost (by rw [slot]; rfl) (by rw [slot]; rfl)
  | cleared _ slot _ => exact lost (by rw [slot]; rfl) (by rw [slot]; rfl)
  | discarded _ slot _ => exact lost (by rw [slot]; rfl) (by rw [slot]; rfl)
  | reloaded t _ _ slot _ => simp only [placement?, slot, Slot.loaded, and_true]
  | loaded t _ isBefore slot _ =>
    rcases isBefore with rfl | ⟨rfl, unplaced⟩
    · exact lost (by rw [slot]; rfl) (by rw [slot]; rfl)
    · simp only [placement?, slot, Slot.loaded, and_true]

end Labelled

/-- What a flush does to an id once a finished repack is shown. -/
structure Proceeds (id : Nat) (a b : Atlas) : Prop where
  stays : (a.slot id).shown = true → (b.slot id).shown = true
  shown : (b.slot id).shown = true → (a.slot id).shown = true ∨ (b.slot id).status = .valid
  valid : (a.slot id).status = .valid → (b.slot id).status = .valid
  texture : (b.slot id).texture = (a.slot id).texture
  idle : (a.slot id).texture = none → b.slot id = a.slot id ∧ b.entry? id = a.entry? id

namespace Proceeds

theorem refl (id : Nat) (a : Atlas) : Proceeds id a a :=
  ⟨fun isShown => isShown, Or.inl, fun valid => valid, rfl, fun _ => ⟨rfl, rfl⟩⟩

theorem trans (first : Proceeds id a b) (second : Proceeds id b c) : Proceeds id a c where
  stays := fun isShown => second.stays (first.stays isShown)
  shown := by
    intro isShown
    rcases second.shown isShown with earlier | valid
    · exact (first.shown earlier).imp_right second.valid
    · exact Or.inr valid
  valid := fun valid => second.valid (first.valid valid)
  texture := second.texture.trans first.texture
  idle := by
    intro none
    obtain ⟨slot, row⟩ := first.idle none
    obtain ⟨laterSlot, laterRow⟩ := second.idle (first.texture.trans none)
    exact ⟨laterSlot.trans slot, laterRow.trans row⟩

theorem of_slot (slot : b.slot id = a.slot id) (row : (a.slot id).texture = none → b.entry? id = a.entry? id) :
    Proceeds id a b := by
  refine ⟨?_, ?_, ?_, by rw [slot], fun none => ⟨slot, row none⟩⟩ <;> rw [slot]
  · exact fun isShown => isShown
  · exact Or.inl
  · exact fun valid => valid

theorem of_relabels (sound : (a.slot id).Sound (accepted id)) (relabels : Relabels id a b) : Proceeds id a b := by
  have used : ∀ p, (a.slot id).place = some p → (a.slot id).texture ≠ none := by
    intro p placed none
    have texture := sound.loaded (by rw [placed]; rfl)
    rw [none] at texture
    cases texture
  cases relabels with
  | kept slot row _ => exact .of_slot slot fun _ => row
  | moved slot _ placed _ => exact .of_slot slot fun none => absurd none (used _ placed)
  | placed p texture _ slot _ =>
    refine ⟨?_, ?_, ?_, by rw [slot], fun none => ?_⟩
    · rw [slot]
      exact fun isShown => isShown
    · rw [slot]
      exact Or.inl
    · rw [slot]
      exact fun valid => valid
    · rw [none] at texture
      cases texture
  | uploaded _ placed slot _ =>
    refine ⟨?_, ?_, ?_, by rw [slot]; rfl, fun none => absurd none (used _ placed)⟩
    · rw [slot]
      exact fun _ => rfl
    · rw [slot]
      exact fun _ => Or.inr rfl
    · rw [slot]
      exact fun _ => rfl

end Proceeds

theorem Labelled.proceeds_flush (labelled : Labelled accepted f.atlas) (id : Nat) :
    Proceeds id f.adoptReady.atlas f.flush.atlas :=
  (Frame.relabels_induction (motive := Proceeds id f.adoptReady.atlas) labelled.adoptReady (.refl id _)
    fun _ _ later relabels before => before.trans (.of_relabels (later.registry.sound id) (relabels id))).2

/-- Once the image of a repack is shown, only what is valid there was uploaded. -/
theorem Labelled.valid_of_shown_adopt (labelled : Labelled accepted a) (isShown : ((a.adopt r).slot id).shown = true) :
    ((a.adopt r).slot id).status = .valid := by
  rw [(adopts_adopt labelled.registry r).slotOf, settledSlot] at isShown ⊢
  split at isShown
  · rename_i registered
    rw [if_pos registered]
    split at isShown
    · rfl
    · cases isShown
    · cases isShown
  · rename_i unused
    cases (labelled.unshown_of_vacant (Bool.eq_false_iff.mpr unused)).symm.trans isShown

/-- The row of an id without data is blank, unless its data was refused and not cleared since. -/
def Clean (a : Atlas) : Prop := ∀ id, (a.slot id).status = .registered → a.entry? id = some .blank

namespace Clean

theorem restates (clean : a.Clean) (restates : Restates id a b) (status : (b.slot id).status = .registered) :
    b.entry? id = some .blank := by
  cases restates with
  | kept slot row => exact row.trans (clean id (slot ▸ status))
  | handedOut _ _ _ row => exact row
  | rejected _ slot _ => cases slot ▸ status
  | cleared _ _ row => exact row
  | discarded _ slot _ => cases slot ▸ status
  | reloaded _ _ _ slot _ => cases slot ▸ status
  | loaded _ _ _ slot _ => cases slot ▸ status

/-- A repack that is shown marks again what was refused before it was cleared. -/
theorem adopt_iff (labelled : Labelled accepted a) (r : Repack) : (a.adopt r).Clean ↔
    ∀ id, (a.slot id).status = .registered → (a.slot id).refused = false := by
  constructor
  · intro clean id status
    have registered := Slot.isRegistered_of_registered status
    obtain ⟨slot, row⟩ := adopt_of_empty labelled.registry.sizes registered (labelled.empty_of_registered status) r
    have blank := row.symm.trans (clean id (by rw [slot]; exact status))
    rw [Slot.idleEntry] at blank
    split at blank
    · cases blank
    · rename_i notRefused
      exact Bool.eq_false_iff.mpr notRefused
  · intro unrefused id after
    rw [(adopts_adopt labelled.registry r).slotOf, settledSlot] at after
    split at after
    · rename_i registered
      split at after
      · cases after
      · cases after
      · rename_i none
        have status : (a.slot id).status = .registered := after
        obtain ⟨_, row⟩ := adopt_of_empty labelled.registry.sizes registered none r
        refine row.trans ?_
        rw [Slot.idleEntry, if_neg (Bool.eq_false_iff.mp (unrefused id status))]
    · rename_i unused
      exact absurd (Slot.isRegistered_of_registered after) unused

end Clean

theorem Clean.flush_iff (labelled : Labelled accepted f.atlas) :
    f.flush.atlas.Clean ↔ f.adoptReady.atlas.Clean := by
  have flushed := labelled.flush
  have same : ∀ id, (f.adoptReady.atlas.slot id).texture = none →
      f.flush.atlas.slot id = f.adoptReady.atlas.slot id ∧ f.flush.atlas.entry? id = f.adoptReady.atlas.entry? id :=
    fun id => (labelled.proceeds_flush id).idle
  constructor
  · intro clean id status
    obtain ⟨slot, row⟩ := same id (labelled.adoptReady.empty_of_registered status)
    exact row.symm.trans (clean id (slot ▸ status))
  · intro clean id status
    obtain ⟨slot, row⟩ :=
      same id ((labelled.proceeds_flush id).texture.symm.trans (flushed.empty_of_registered status))
    exact row.trans (clean id (slot ▸ status))

namespace World

variable {w : World} {actions done : List Action} {action : Action}

/-- The next flush shows the image of a repack. -/
def ShowsRepack (w : World) : Prop := ∃ r, w.atlas.repack = some r ∧ r.progress = .ready

/-- If the next flush shows the image of a repack, then no id is without data whose last data was refused for its
size. -/
def Unmarked (w : World) : Prop :=
  w.ShowsRepack → ∀ id, (w.atlas.slot id).status = .registered → (w.atlas.slot id).refused = false

/-- In the course of the actions the id was valid behind a flush, and it has kept its place since: no call took that
away, and no flush showed the image of a repack. -/
inductive PlaceKept (w : World) (id : Nat) : List Action → Prop where
  | uploaded {done : List Action} : (((done ++ [Action.flush]).foldl step w).atlas.slot id).status = .valid →
      PlaceKept w id (done ++ [.flush])
  | call {done : List Action} {action : Action} : PlaceKept w id done → action ≠ .flush →
      ((done ++ [action]).foldl step w).atlas.placement? id = (done.foldl step w).atlas.placement? id →
      PlaceKept w id (done ++ [action])
  | flush {done : List Action} : PlaceKept w id done → ¬(done.foldl step w).ShowsRepack →
      PlaceKept w id (done ++ [.flush])

theorem placeKept_flush_iff : w.PlaceKept id (done ++ [Action.flush]) ↔
    (((done ++ [Action.flush]).foldl step w).atlas.slot id).status = .valid ∨
      w.PlaceKept id done ∧ ¬(done.foldl step w).ShowsRepack := by
  refine ⟨fun kept => ?_, fun either => either.elim .uploaded fun both => .flush both.1 both.2⟩
  generalize isAll : done ++ [Action.flush] = all at kept
  cases kept with
  | uploaded valid => exact Or.inl valid
  | call _ other _ => exact absurd (List.append_inj' isAll rfl).2 (by simpa using other.symm)
  | flush before shows =>
    obtain ⟨rfl, _⟩ := List.append_inj' isAll rfl
    exact Or.inr ⟨before, shows⟩

theorem placeKept_call_iff (other : action ≠ .flush) : w.PlaceKept id (done ++ [action]) ↔ w.PlaceKept id done ∧
    ((done ++ [action]).foldl step w).atlas.placement? id = (done.foldl step w).atlas.placement? id := by
  refine ⟨fun kept => ?_, fun both => .call both.1 other both.2⟩
  generalize isAll : done ++ [action] = all at kept
  cases kept with
  | uploaded _ => exact absurd (List.append_inj' isAll rfl).2 (by simpa using other)
  | call before _ same =>
    obtain ⟨rfl, isAction⟩ := List.append_inj' isAll rfl
    cases isAction
    exact ⟨before, same⟩
  | flush _ _ => exact absurd (List.append_inj' isAll rfl).2 (by simpa using other)

/-- What an atlas notes of an upload is that the place was kept since. -/
theorem shown_iff_placeKept {c : Config} {device : Device} {given : Option Staging}
    (created : Atlas.create c device given = .ok (w.atlas, w.device, w.staging)) (done : List Action) (id : Nat) :
    ((done.foldl step w).atlas.slot id).shown = true ↔ w.PlaceKept id done := by
  induction done using List.reverseRecOn with
  | nil =>
    obtain ⟨_, _, handle, _, isAtlas⟩ := create_eq_ok_iff.mp created
    rw [List.foldl_nil, isAtlas, slot_ofImage]
    refine iff_of_false Bool.false_ne_true fun kept => ?_
    generalize isNil : ([] : List Action) = none at kept
    cases kept <;> simp at isNil
  | append_singleton done action ih =>
    obtain ⟨accepted, labelled⟩ := (labelled_of_create created).run done
    by_cases flushes : action = .flush
    · subst flushes
      have proceeds : Proceeds id (done.foldl step w).frame.adoptReady.atlas
          (done.foldl step w).frame.flush.atlas := labelled.proceeds_flush (f := (done.foldl step w).frame) id
      have flushed : Labelled accepted (done.foldl step w).frame.flush.atlas :=
        labelled.flush (f := (done.foldl step w).frame)
      rw [placeKept_flush_iff, ← ih, Caught.foldl_snoc]
      show ((done.foldl step w).frame.flush.atlas.slot id).shown = true ↔
        ((done.foldl step w).frame.flush.atlas.slot id).status = .valid ∨ _
      rcases (done.foldl step w).frame.adoptReady_cases with ⟨r, running, ready, isAtlas⟩ | ⟨unready, isAtlas⟩
      · have shows : (done.foldl step w).ShowsRepack := ⟨r, running, ready⟩
        rw [isAtlas] at proceeds
        refine ⟨fun isShown => Or.inl ?_, fun either => ?_⟩
        · exact (proceeds.shown isShown).elim (fun earlier => proceeds.valid (labelled.valid_of_shown_adopt earlier))
            fun valid => valid
        · exact flushed.shown_of_valid (either.resolve_right fun both => both.2 shows)
      · have quiet : ¬(done.foldl step w).ShowsRepack := fun ⟨r, running, ready⟩ => unready r running ready
        rw [isAtlas] at proceeds
        refine ⟨fun isShown => (proceeds.shown isShown).symm.imp_right fun earlier => ⟨earlier, quiet⟩, fun either => ?_⟩
        exact either.elim flushed.shown_of_valid fun both => proceeds.stays both.1
    · have restates := (serves_of_step labelled.orderly flushes).restates
        labelled.registry.sizes id
      rw [placeKept_call_iff flushes, ← ih, Caught.foldl_snoc]
      exact labelled.shown_restates restates

/-- Behind the actions, flags and states agree, of ids that are registered without data apart. -/
structure Told (w : World) (done : List Action) : Prop where
  tooLarge : ∀ id, ((done.foldl step w).atlas.slot id).status = .tooLarge →
    (done.foldl step w).atlas.flags? id = some Entry.tooLargeFlag
  valid : ∀ id, ((done.foldl step w).atlas.slot id).status = .valid →
    (done.foldl step w).atlas.flags? id = some Entry.validFlag
  /-- While data waits, the row is valid just if the place was kept since the last upload. -/
  pending : ∀ id, ((done.foldl step w).atlas.slot id).status = .pendingUpload →
    w.PlaceKept id done ∧ (done.foldl step w).atlas.flags? id = some Entry.validFlag ∨
      ¬w.PlaceKept id done ∧ (done.foldl step w).atlas.flags? id = some Entry.pendingFlag
  /-- Ids that are removed or never were handed out have no flags. -/
  vacant : ∀ id, w.atlas.config.reservedCount ≤ id → id < w.atlas.config.maxTextureId →
    ((done.foldl step w).atlas.slot id).isRegistered = false → (done.foldl step w).atlas.flags? id = some 0
  overflow : ∃ e, (done.foldl step w).atlas.entry? overflowId = some e ∧ e.isValid = false
  layers : ∀ layer < w.atlas.config.maxLayers,
    (done.foldl step w).atlas.entry? (layerId layer) = some (.wholeLayer layer)

/-- Behind the actions, flags and states agree. -/
structure Flagged (w : World) (done : List Action) : Prop extends w.Told done where
  registered : ∀ id, ((done.foldl step w).atlas.slot id).status = .registered →
    (done.foldl step w).atlas.flags? id = some 0

/-- What one action makes of clean rows. -/
theorem clean_step_iff (labelled : Labelled accepted w.atlas) (clean : w.atlas.Clean) (action : Action) :
    (w.step action).atlas.Clean ↔ (action = .flush → w.Unmarked) := by
  by_cases flushes : action = .flush
  · subst flushes
    have flushed : (w.step .flush).atlas.Clean ↔ w.frame.adoptReady.atlas.Clean :=
      Clean.flush_iff (f := w.frame) labelled
    rw [flushed]
    rcases w.frame.adoptReady_cases with ⟨r, running, ready, isAtlas⟩ | ⟨unready, isAtlas⟩
    · rw [isAtlas]
      refine (Clean.adopt_iff (a := w.atlas) labelled r).trans ⟨fun unrefused _ _ => unrefused, fun unmarked => ?_⟩
      exact unmarked rfl ⟨r, running, ready⟩
    · rw [isAtlas]
      exact iff_of_true clean fun _ ⟨r, running, ready⟩ => absurd ready (unready r running)
  · refine iff_of_true (fun id status => ?_) fun isFlush => absurd isFlush flushes
    exact clean.restates ((serves_of_step labelled.orderly flushes).restates labelled.registry.sizes id) status

theorem told_of_create {c : Config} {device : Device} {given : Option Staging}
    (created : Atlas.create c device given = .ok (w.atlas, w.device, w.staging)) (done : List Action) :
    w.Told done := by
  obtain ⟨accepted, labelled⟩ := (labelled_of_create created).run done
  have config := (fixes_foldl (orderly_of_create created) done).config
  have kept := fun id => shown_iff_placeKept created done id
  obtain ⟨valid, _, handle, _, isAtlas⟩ := create_eq_ok_iff.mp created
  have room : w.atlas.config.reservedCount < w.atlas.config.maxTextureId := by
    rw [isAtlas]
    exact (bounds_of_validate valid).2.2
  have used : ∀ id status, ((done.foldl step w).atlas.slot id).status = status → status ≠ .registered →
      status ≠ .unused → (done.foldl step w).atlas.flags? id = some ((done.foldl step w).atlas.slot id).flags := by
    intro id status isStatus unregistered isUsed
    refine (labelled.labelledAt id (isStatus ▸ isUsed)).flags?.resolve_right fun marked => ?_
    exact unregistered (isStatus.symm.trans marked.1)
  have reserved : ∀ id < w.atlas.config.reservedCount, (done.foldl step w).atlas.entry? id =
      some (if 0 < id ∧ id ≤ w.atlas.config.maxLayers then .wholeLayer (id - 1) else .blank) := by
    intro id isReserved
    rw [← config] at isReserved
    refine (labelled.reserves.rows id isReserved).trans ?_
    rw [config] at isReserved ⊢
    rw [getElem?_initialEntries, if_pos (Nat.lt_trans isReserved room)]
  refine ⟨fun id status => ?_, fun id status => ?_, fun id status => ?_, fun id usable inside unused => ?_, ?_,
    fun layer isLayer => ?_⟩
  · rw [used id _ status (by decide) (by decide), Slot.flags, status]
  · rw [used id _ status (by decide) (by decide), Slot.flags, status]
  · rw [used id _ status (by decide) (by decide), Slot.flags, status]
    rw [← kept id]
    by_cases isShown : ((done.foldl step w).atlas.slot id).shown = true
    · rw [if_pos isShown]
      exact Or.inl ⟨isShown, rfl⟩
    · rw [if_neg isShown]
      exact Or.inr ⟨isShown, rfl⟩
  · rw [← config] at usable inside
    obtain ⟨e, row, labels⟩ := labelled.rows id usable inside
    obtain ⟨_, rfl⟩ := labels.of_vacant unused
    have rowOf : (done.foldl step w).atlas.entry? id = some .blank := row
    rw [flags?, rowOf]
    rfl
  · refine ⟨.blank, reserved overflowId (Nat.succ_pos _), rfl⟩
  · rw [reserved (layerId layer) (Nat.succ_lt_succ isLayer), if_pos ⟨Nat.succ_pos layer, isLayer⟩]
    rfl

/-- The row of an id without data is blank, or it is marked as the last data was refused before it was cleared. -/
theorem row_of_registered (labelled : Labelled accepted a) (status : (a.slot id).status = .registered) :
    a.entry? id = some .blank ∨ (a.slot id).refused = true ∧ a.entry? id = some .tooLarge := by
  obtain ⟨e, row, labels⟩ := labelled.labelledAt id (by rw [status]; decide)
  have rowOf : a.entry? id = some e := row
  rw [rowOf]
  cases labels with
  | vacant _ _ => exact Or.inl rfl
  | empty _ _ _ => exact Or.inl rfl
  | marked _ _ _ refused => exact Or.inr ⟨refused, rfl⟩
  | refused other _ _ _ => cases other.symm.trans status
  | waiting other _ _ => cases other.symm.trans status
  | shown either _ _ _ => rcases either with other | other <;> cases other.symm.trans status

theorem flagged_iff_clean {c : Config} {device : Device} {given : Option Staging}
    (created : Atlas.create c device given = .ok (w.atlas, w.device, w.staging)) (done : List Action) :
    w.Flagged done ↔ (done.foldl step w).atlas.Clean := by
  obtain ⟨accepted, labelled⟩ := (labelled_of_create created).run done
  refine ⟨fun flagged id status => ?_, fun clean => ⟨told_of_create created done, fun id status => ?_⟩⟩
  · refine (row_of_registered labelled status).resolve_right fun ⟨_, row⟩ => ?_
    have flags := flagged.registered id status
    rw [flags?, row] at flags
    cases flags
  · rw [flags?, clean id status]
    rfl

theorem clean_of_create {c : Config} {device : Device} {given : Option Staging}
    (created : Atlas.create c device given = .ok (w.atlas, w.device, w.staging)) : w.atlas.Clean := by
  obtain ⟨_, _, handle, _, isAtlas⟩ := create_eq_ok_iff.mp created
  intro id status
  rw [isAtlas, slot_ofImage] at status
  cases status

/-- Flags and states agree all along just if each flush that shows the image of a repack finds no id without data whose
last data was refused for its size: such a flush marks the id as if it was not cleared. Nothing else goes wrong. -/
theorem flagged_iff {c : Config} {device : Device} {given : Option Staging}
    (created : Atlas.create c device given = .ok (w.atlas, w.device, w.staging)) (actions : List Action) :
    (∀ done : List Action, w.Told done ∧ ∀ id, ((done.foldl step w).atlas.slot id).status = .registered →
      (done.foldl step w).atlas.flags? id = some 0 ∨ ((done.foldl step w).atlas.slot id).refused = true ∧
        (done.foldl step w).atlas.flags? id = some Entry.tooLargeFlag) ∧
    ((∀ done, done <+: actions → w.Flagged done) ↔
      ∀ done, done ++ [.flush] <+: actions → (done.foldl step w).Unmarked) := by
  have labelled := fun done => (labelled_of_create created).run done
  refine ⟨fun done => ⟨told_of_create created done, fun id status => ?_⟩, fun flagged done isPrefix => ?_,
    fun unmarked done isPrefix => (flagged_iff_clean created done).mpr ?_⟩
  · obtain ⟨accepted, labelledAt⟩ := labelled done
    rw [flags?]
    rcases row_of_registered labelledAt status with row | ⟨refused, row⟩ <;> rw [row]
    · exact Or.inl rfl
    · exact Or.inr ⟨refused, rfl⟩
  · obtain ⟨accepted, before⟩ := labelled done
    have clean := (flagged_iff_clean created done).mp (flagged done ((List.prefix_append done _).trans isPrefix))
    have after := (flagged_iff_clean created _).mp (flagged _ isPrefix)
    rw [Caught.foldl_snoc, clean_step_iff before clean] at after
    exact after rfl
  · induction done using List.reverseRecOn with
    | nil => exact clean_of_create created
    | append_singleton done action ih =>
      obtain ⟨accepted, before⟩ := labelled done
      have clean := ih ((List.prefix_append done [action]).trans isPrefix)
      rw [Caught.foldl_snoc, clean_step_iff before clean]
      rintro rfl
      exact unmarked done isPrefix

theorem unmarked_of_idle (idle : w.atlas.repack = none) : w.Unmarked := by
  rintro ⟨r, running, _⟩
  cases idle.symm.trans running

theorem unmarked_of_unrefused (unrefused : ∀ id < w.atlas.slots.size, (w.atlas.slot id).refused = false) :
    w.Unmarked := by
  intro _ id status
  exact unrefused id (lt_of_status (by rw [status]; decide))

theorem readied_unrefused : (readied.atlas.repack.map (·.progress)) = some .ready ∧
    ∀ id < readied.atlas.slots.size, (readied.atlas.slot id).refused = false := by
  decide +kernel

theorem flagged_iff_repacking : (∃ c device given,
      Atlas.create c device given = .ok (sample.atlas, sample.device, sample.staging)) ∧
    readied.ShowsRepack ∧ (readied.step .flush).atlas.status? 2 = some .valid ∧
    sample.Flagged (repacking ++ [Action.flush]) := by
  obtain ⟨c, device, given, _, created, _⟩ := starts_sample
  obtain ⟨ready, unrefused⟩ := readied_unrefused
  obtain ⟨r, running, isReady⟩ := Option.map_eq_some_iff.mp ready
  refine ⟨⟨c, device, given, created⟩, ⟨r, running, isReady⟩, valid_readied, ?_⟩
  refine (flagged_iff created (repacking ++ [Action.flush])).2.mpr ?_ _ (List.prefix_refl _)
  refine flushes_repacking (unmarked_of_idle ?_) (unmarked_of_idle ?_) (unmarked_of_unrefused unrefused)
  · exact Option.isNone_iff_eq_none.mp loaded_idle
  · exact Option.isNone_iff_eq_none.mp asked_starts.1

/-- Data that is too large is refused once the image of the repack is filled, and then it is cleared. -/
def refusing : List Action := [.set 2 2049 1 0 ⟨#[]⟩, .clear 2]

theorem refusing_marks : ((refusing.foldl step readied).step .flush).atlas.status? 2 = some .registered ∧
    ((refusing.foldl step readied).step .flush).atlas.flags? 2 = some Entry.tooLargeFlag := by
  decide +kernel

/-- The id is without data behind the flush that shows the image of the repack, and its row is marked as too large. -/
theorem not_flagged_refusing : (∃ c device given,
      Atlas.create c device given = .ok (sample.atlas, sample.device, sample.staging)) ∧
    ((repacking ++ refusing ++ [Action.flush]).foldl step sample).atlas.status? 2 = some .registered ∧
    ((repacking ++ refusing ++ [Action.flush]).foldl step sample).atlas.flags? 2 = some Entry.tooLargeFlag ∧
    ¬sample.Flagged (repacking ++ refusing ++ [Action.flush]) := by
  obtain ⟨c, device, given, _, created, _⟩ := starts_sample
  obtain ⟨status, flags⟩ := refusing_marks
  have course : (repacking ++ refusing ++ [Action.flush]).foldl step sample =
      (refusing.foldl step readied).step .flush := by
    rw [Caught.foldl_snoc, List.foldl_append, foldl_repacking]
  rw [course]
  refine ⟨⟨c, device, given, created⟩, status, flags, fun flagged => ?_⟩
  have agrees := flagged.registered 2
  rw [course] at agrees
  cases flags.symm.trans (agrees (status_of_status? status))

end World

end TextureLoom.Atlas
