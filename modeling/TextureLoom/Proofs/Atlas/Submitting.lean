import TextureLoom.Proofs.Atlas.Running

set_option autoImplicit false

namespace TextureLoom.Atlas

variable {promised fewer : Submission → Nat → Prop} {tracked : Nat → Prop} {id : Nat}

namespace World

variable {w₀ w w₁ w₂ : World} {actions before quiet later : List Action} {s : Submission} {rest : List Submission}

/-- A new atlas is sound, if all ids are tracked or none is. -/
theorem sound_of_starts (starts : w.Starts) (all : (∀ id, tracked id) ∨ ∀ id, ¬tracked id) :
    w.Sound promised tracked := by
  obtain ⟨config, device, given, alignment, created, noneWaits, noneAccepted, _⟩ := starts
  have atlas := sound_of_create alignment created all
  rw [← noneAccepted] at atlas
  refine ⟨⟨w.device, ⟨⟨w.device, ?_, rfl⟩, ?_, fun c member => by cases member⟩, atlas⟩, ?_⟩
  · rw [noneWaits]
    rfl
  · rw [noneWaits]
    intro s member
    cases member
  · rw [noneWaits]
    intro s member
    cases member

theorem Sound.forget (sound : w.Sound promised tracked) (less : ∀ s ∈ w.waiting, ∀ id, fewer s id → promised s id) :
    w.Sound fewer fun _ => False where
  frame := by
    obtain ⟨live, reaches, atlas⟩ := sound.frame
    exact ⟨live, reaches.mono less,
      { atlas with
        steady := Or.inr fun _ isTracked => isTracked.elim
        content := fun _ isTracked => isTracked.elim }⟩
  numbered := sound.numbered

/-- No call is about a tracked id if none is tracked. -/
theorem spares_none (action : Action) : action.Spares fun _ => False :=
  Or.inr ⟨⟨0, fun isTracked => isTracked⟩, fun _ isTracked => isTracked.elim⟩

/-- Without promises, a world is sound wherever a run leads. -/
theorem sound_of_run (starts : w₀.Starts) (run : Run w₀ actions w) : w.Sound (fun _ _ => False) fun _ => False :=
  Sound.run run (sound_of_starts starts (Or.inr fun _ isTracked => isTracked)) (fun _ _ _ isPromised => isPromised.elim)
    fun action _ => spares_none action

/-- While no repack is asked for, the lists promise all ids that they leave valid. -/
theorem sound_of_unasked (starts : w₀.Starts) (run : Run w₀ actions w)
    (unasked : ∀ mode, Action.requestRepack mode ∉ actions) :
    w.Sound (fun s id => (s.after.slot id).status = .valid) fun _ => True := by
  refine Sound.run run (sound_of_starts starts (Or.inl fun _ => trivial)) ?_ ?_
  · exact fun s _ id isValid => ⟨trivial, fun _ => isValid⟩
  · intro action member
    refine Or.inl ⟨fun _ => trivial, ?_⟩
    rintro mode rfl
    exact unasked mode member

/-- A tracked id that is valid is shown once all lists are submitted. -/
theorem Sound.shows_settled (sound : w.Sound promised tracked) (isTracked : tracked id)
    (valid : (w.atlas.slot id).status = .valid) : Shows w.settled w.atlas w.accepted id := by
  obtain ⟨live, reaches, atlas⟩ := sound.frame
  obtain ⟨middle, replays, performs⟩ := reaches.replays
  cases performs
  rw [show w.settled = live from replays.settled]
  have keeps : Submission.Keeps ⟨w.flushes, w.atlas, w.accepted, []⟩ live id := atlas.keeps isTracked valid
  exact keeps.shows

/-- A valid configuration and a staging buffer that holds the table are enough where memory is not limited. -/
theorem create_of_unlimited {c : Config} {device : Device} {given : Staging} (valid : c.validate = .ok ())
    (holds : c.tableBytes ≤ given.size) (unlimited : device.memoryLimit = none) :
    Atlas.create c device (some given) = .ok
      (ofImage c (max device.alignment 4) (device.handles + 2) (device.handles + 1),
      (device.createBuffer c.tableBytes).2.added (.create c.initialSide 1), given) := by
  have large : ¬given.size < c.tableBytes := Nat.not_lt.mpr holds
  have isStaging : stagingFor c (some given) = .ok given := by
    simp [stagingFor, large, bind, Except.bind, pure, Except.pure]
  refine create_eq_ok_iff.mpr ⟨valid, isStaging, device.handles + 2, ?_, rfl⟩
  simp [Device.createImage, Device.createBuffer, Device.added, unlimited]

/-- An atlas of one layer with one id to hand out, on a device without a limit. -/
def sample : World where
  atlas := ofImage { maxTextureId := 3, maxLayers := 1, padding := 1, stagingBytes := 168 } 4 2 1
  device := ((Device.create 1).createBuffer 96).2.added (.create 1024 1)
  staging := ⟨⟨Array.replicate 168 0⟩, 0⟩
  waiting := []
  accepted := fun _ => none
  flushes := 0

theorem starts_sample : sample.Starts := by
  refine ⟨{ maxTextureId := 3, maxLayers := 1, padding := 1, stagingBytes := 168 }, .create 1, some sample.staging,
    Or.inl rfl, ?_, rfl, rfl, rfl⟩
  exact create_of_unlimited rfl (by simp [Staging.size, sample, ByteArray.size, Config.tableBytes, entryBytes]) rfl

/-- The id is handed out, its pixels are set, and the atlas is flushed. -/
def drawing : List Action := [.register, .set 2 1 1 0 ⟨#[200, 100, 50, 255]⟩, .flush]

def drawn : World := drawing.foldl step sample

theorem run_drawn : Run sample drawing drawn := .more trivial (.more trivial (.more trivial (.done _)))

theorem drawn_valid : drawn.atlas.status? 2 = some .valid ∧ drawn.waiting.map (·.commands.length) = [5] := by
  decide +kernel

/-- Whatever is called and refused meanwhile, each list is in order on the device when its turn comes, so the device
accepts it. -/
theorem performs_submit (starts : w₀.Starts) (run : Run w₀ actions w) (waits : w.waiting = s :: rest) :
    Device.Performs w.staging w.device s.commands (w.step .submit).device ∧
      w.device.submit w.staging s.commands = ((w.step .submit).device, .ok ()) := by
  obtain ⟨performs, _, _⟩ := (sound_of_run starts run).submit waits
  exact ⟨performs, performs.submit⟩

theorem performs_submit_drawn : sample.Starts ∧ Run sample drawing drawn ∧ ∃ s, drawn.waiting = [s] ∧
    s.commands.length = 5 ∧ Device.Performs drawn.staging drawn.device s.commands (drawn.step .submit).device ∧
      drawn.device.submit drawn.staging s.commands = ((drawn.step .submit).device, .ok ()) :=
  ⟨starts_sample, run_drawn, _, rfl, List.singleton_inj.mp drawn_valid.2, performs_submit starts_sample run_drawn rfl⟩

/-- As long as no repack is asked for, each id that a flush left valid is shown once the list of the flush is
submitted. -/
theorem shows_of_valid (starts : w₀.Starts) (run : Run w₀ actions w)
    (unasked : ∀ mode, Action.requestRepack mode ∉ actions) (waits : w.waiting = s :: rest)
    (valid : s.after.status? id = some .valid) : Shows (w.step .submit).device s.after s.accepted id := by
  obtain ⟨_, keeps, _⟩ := (sound_of_unasked starts run unasked).submit waits
  refine (keeps id ?_).shows
  exact status_of_status? valid

theorem shows_of_valid_drawn : sample.Starts ∧ Run sample drawing drawn ∧
    (∀ mode, Action.requestRepack mode ∉ drawing) ∧ ∃ s, drawn.waiting = [s] ∧ s.after.status? 2 = some .valid ∧
      Shows (drawn.step .submit).device s.after s.accepted 2 := by
  have unasked : ∀ mode, Action.requestRepack mode ∉ drawing := by simp [drawing]
  exact ⟨starts_sample, run_drawn, unasked, _, rfl, drawn_valid.1,
    shows_of_valid starts_sample run_drawn unasked rfl drawn_valid.1⟩

/-- A flush starts a repack: none runs once a finished one is shown, and then one does. -/
structure StartsRepack (w : World) : Prop where
  idle : w.frame.adoptReady.atlas.repack = none
  started : w.frame.adoptReady.startRequested.atlas.repack.isSome

/-- From the flush on that starts a repack, the lists promise an id that was shown then. -/
theorem sound_of_startsRepack (starts : w₀.Starts) (run : Run w₀ before w) (begins : w.StartsRepack)
    (valid : w.frame.adoptReady.atlas.status? id = some .valid)
    (shown : Shows w.settled w.frame.adoptReady.atlas w.accepted id) :
    (w.step .flush).Sound (fun s other => other = id ∧ w.flushes ≤ s.number) (· = id) := by
  have sound := sound_of_run starts run
  obtain ⟨live, reaches, atlas⟩ := sound.frame.adoptReady
  obtain ⟨sameDevice, sameStaging, noCommands⟩ := w.frame.adoptReady_keeps
  have isValid := status_of_status? valid
  have isLive : w.settled = live := by
    obtain ⟨middle, replays, performs⟩ := reaches.replays
    rw [noCommands] at performs
    rw [sameDevice, sameStaging] at replays
    cases performs
    exact replays.settled
  have unpromised : ∀ s ∈ w.waiting, ∀ other, other = id ∧ w.flushes ≤ s.number → False :=
    fun s member other isPromised => Nat.not_le_of_lt (sound.numbered s member) isPromised.2
  have frame : w.frame.adoptReady.Sound (fun s other => other = id ∧ w.flushes ≤ s.number) w.waiting (· = id)
      w.accepted [] := ⟨live, reaches.mono unpromised, atlas.track begins.idle isValid (isLive ▸ shown)⟩
  apply Sound.flush frame.flush_of_adoptReady sound.numbered
  exact fun s _ other isPromised => ⟨isPromised.1, fun all => absurd (all (id + 1)) (Nat.succ_ne_self id)⟩

/-- The flushed atlas is asked for a repack. -/
def asked : World := drawn.step (.requestRepack .keepCapacity)

theorem run_asked : Run sample (drawing ++ [.requestRepack .keepCapacity]) asked :=
  .more trivial (.more trivial (.more trivial (.more trivial (.done _))))

theorem asked_starts : asked.frame.atlas.repack.isNone ∧ asked.frame.startRequested.atlas.repack.isSome ∧
    asked.frame.atlas.status? 2 = some .valid := by
  decide +kernel

theorem adoptReady_asked : asked.frame.adoptReady = asked.frame :=
  Frame.adoptReady_of_idle (Option.isNone_iff_eq_none.mp asked_starts.1)

theorem startsRepack_asked : asked.StartsRepack where
  idle := by
    rw [adoptReady_asked]
    exact Option.isNone_iff_eq_none.mp asked_starts.1
  started := by
    rw [adoptReady_asked]
    exact asked_starts.2.1

/-- To ask for a repack changes nothing that is shown. -/
theorem shows_requestRepack (shown : Shows w.settled w.atlas w.accepted id) (mode : RepackMode) :
    Shows (w.step (.requestRepack mode)).settled (w.step (.requestRepack mode)).frame.atlas
      (w.step (.requestRepack mode)).accepted id := shown

theorem shows_asked : Shows asked.settled asked.frame.adoptReady.atlas asked.accepted 2 := by
  have sound := sound_of_unasked starts_sample run_drawn (by simp [drawing])
  have shown := sound.shows_settled trivial (status_of_status? drawn_valid.1)
  rw [adoptReady_asked]
  exact shows_requestRepack shown .keepCapacity

/-- The lists are submitted, and the next flush shows the new image. -/
def moving : List Action := [.submit, .submit, .finish, .flush]

def moved : World := moving.foldl step (asked.step .flush)

theorem run_moved : Run (asked.step .flush) moving moved := by
  have two : (asked.step .flush).waiting ≠ [] := by decide +kernel
  have one : ((asked.step .flush).step .submit).waiting ≠ [] := by decide +kernel
  have none : (((asked.step .flush).step .submit).step .submit).waiting = [] := by decide +kernel
  exact .more two (.more one (.more none (.more trivial (.done _))))

/-- From the flush that starts a repack up to the one that shows the new image, and on for as long as no call is about
the id, whatever is done to others: if the id was valid and shown when the repack started, it is behind each of these
flushes, and its row in the table is valid. -/
theorem shows_throughout_repack (starts : w₀.Starts) (run : Run w₀ before w) (begins : w.StartsRepack)
    (valid : w.frame.adoptReady.atlas.status? id = some .valid)
    (shown : Shows w.settled w.frame.adoptReady.atlas w.accepted id) (course : Run (w.step .flush) quiet w₁)
    (unnamed : ∀ action ∈ quiet, ¬action.Names id) (onwards : Run w₁ later w₂) (waits : w₂.waiting = s :: rest)
    (first : w.flushes ≤ s.number) (recorded : s.number < w₁.flushes) :
    s.after.status? id = some .valid ∧ (∃ e, s.after.entry? id = some e ∧ e.isValid = true) ∧
      Shows (w₂.step .submit).device s.after s.accepted id := by
  have others : ∃ other, other ≠ id := ⟨id + 1, Nat.succ_ne_self id⟩
  have quietly : w₁.Sound (fun s other => other = id ∧ w.flushes ≤ s.number) (· = id) := by
    refine Sound.run course (sound_of_startsRepack starts run begins valid shown) ?_ ?_
    · exact fun s _ other isPromised => ⟨isPromised.1, fun all => absurd (all (id + 1)) (Nat.succ_ne_self id)⟩
    · intro action member
      refine Or.inr ⟨others, ?_⟩
      rintro _ rfl
      exact unnamed action member
  have forgotten : w₁.Sound (fun s other => (other = id ∧ w.flushes ≤ s.number) ∧ s.number < w₁.flushes)
      fun _ => False :=
    quietly.forget fun _ _ _ isPromised => isPromised.1
  have sound : w₂.Sound (fun s other => (other = id ∧ w.flushes ≤ s.number) ∧ s.number < w₁.flushes)
      fun _ => False := by
    refine Sound.run onwards forgotten ?_ fun action _ => spares_none action
    exact fun s more other isPromised => absurd isPromised.2 (Nat.not_lt_of_le more)
  obtain ⟨_, keeps, _⟩ := sound.submit waits
  have kept := keeps id ⟨⟨rfl, first⟩, recorded⟩
  exact ⟨kept.valid, kept.marked, kept.shows⟩

theorem shows_throughout_repack_moved : sample.Starts ∧ Run sample (drawing ++ [.requestRepack .keepCapacity]) asked ∧
    asked.StartsRepack ∧ asked.frame.adoptReady.atlas.status? 2 = some .valid ∧
    Shows asked.settled asked.frame.adoptReady.atlas asked.accepted 2 ∧ Run (asked.step .flush) moving moved ∧
    (∀ action ∈ moving, ¬action.Names 2) ∧ ∃ s, moved.waiting = [s] ∧ asked.flushes ≤ s.number ∧
      s.number < moved.flushes ∧ s.after.image.handle ≠ asked.atlas.image.handle ∧
      s.after.status? 2 = some .valid ∧ (∃ e, s.after.entry? 2 = some e ∧ e.isValid = true) ∧
      Shows (moved.step .submit).device s.after s.accepted 2 := by
  have valid : asked.frame.adoptReady.atlas.status? 2 = some .valid := by
    rw [adoptReady_asked]
    exact asked_starts.2.2
  have unnamed : ∀ action ∈ moving, ¬action.Names 2 := by simp [moving, Action.Names]
  refine ⟨starts_sample, run_asked, startsRepack_asked, valid, shows_asked, run_moved, unnamed, _, rfl, by decide,
    by decide, by decide +kernel, ?_⟩
  exact shows_throughout_repack starts_sample run_asked startsRepack_asked valid shows_asked run_moved unnamed (.done _)
    rfl (by decide) (by decide)

end World

end TextureLoom.Atlas
