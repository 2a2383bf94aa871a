import TextureLoom.Proofs.Atlas.Mirroring

set_option autoImplicit false

namespace TextureLoom.Atlas.World

variable {w₀ u w w₁ v last : World} {action : Action} {actions before between during : List Action}
  {s : Submission} {rest : List Submission} {entries : Array Entry} {number : Nat}

theorem Run.eq_foldl (run : Run w actions last) : last = actions.foldl step w := by
  induction run with
  | done => rfl
  | more _ _ ih => exact ih

theorem Run.append {more : List Action} (first : Run w actions v) (second : Run v more last) :
    Run w (actions ++ more) last := by
  induction first with
  | done => exact second
  | more allowed _ ih => exact .more allowed (ih second)

/-- Actions that are allowed anywhere make a run. -/
theorem run_foldl (allowed : ∀ action ∈ actions, ∀ v : World, v.Allows action) (w : World) :
    Run w actions (actions.foldl step w) := by
  induction actions generalizing w with
  | nil => exact .done w
  | cons first rest ih =>
    refine .more (allowed first List.mem_cons_self w) (ih (fun action member => ?_) (w.step first))
    exact allowed action (List.mem_cons_of_mem first member)

theorem descriptor_image (a : Atlas) : a.descriptor.image = a.image := rfl

theorem allows_submit (waits : w.waiting = s :: rest) : w.Allows .submit := by
  rw [Allows, waits]
  exact List.cons_ne_nil s rest

/-- Of the lists that wait, only this one has its number. -/
structure Knows (list : Submission) (w : World) : Prop where
  recorded : list.number < w.flushes
  only : ∀ s ∈ w.waiting, s.number = list.number → s = list

theorem Knows.step {list : Submission} (knows : w.Knows list) (orderly : w.atlas.Orderly)
    (allowed : w.Allows action) : (w.step action).Knows list := by
  have moves := moves_step orderly allowed
  generalize w.step action = v at moves
  cases moves with
  | call _ _ _ waiting flushes => exact ⟨flushes ▸ knows.recorded, waiting ▸ knows.only⟩
  | flush =>
    refine ⟨Nat.lt_succ_of_lt knows.recorded, fun s member same => ?_⟩
    rcases List.mem_append.mp member with earlier | new
    · exact knows.only s earlier same
    · cases List.mem_singleton.mp new
      exact absurd same (Nat.ne_of_gt knows.recorded)
  | submit waits => exact ⟨knows.recorded, fun s member => knows.only s (waits ▸ List.mem_cons_of_mem _ member)⟩

theorem Knows.run {list : Submission} (run : Run v actions last) (tabled : v.Tabled) (knows : v.Knows list) :
    last.Knows list := by
  induction run with
  | done => exact knows
  | more allowed _ ih => exact ih (tabled.step allowed) (knows.step tabled.orderly allowed)

/-- From a flush on, its number stands for its list. -/
theorem recorded_of_number (tabled : w.Tabled) (course : Run (w.step .flush) during last) (member : s ∈ last.waiting)
    (isList : s.number = w.flushes) : s = w.recorded := by
  have first : (w.step .flush).Knows w.recorded := by
    refine ⟨Nat.lt_succ_self w.flushes, fun other isOther same => ?_⟩
    rcases List.mem_append.mp isOther with earlier | new
    · exact absurd same (Nat.ne_of_lt (tabled.numbered other earlier))
    · exact List.mem_singleton.mp new
  exact (Knows.run course tabled.flush first).only s member isList

/-- The list of a flush waits still or the table has its rows, and the lists behind it were recorded with the same
rows. -/
inductive Since (number : Nat) (entries : Array Entry) (w : World) : Prop where
  | waits (earlier later : List Submission) (s : Submission) : w.waiting = earlier ++ s :: later →
      s.number = number → s.after.tableStale = false → s.after.entries = entries →
      (∀ l ∈ later, l.after.entries = entries) → Since number entries w
  | done : w.device.buffers.get? w.atlas.tableBuffer = some (Entry.tableBytes entries) →
      (∀ l ∈ w.waiting, l.after.entries = entries) → Since number entries w

/-- What one action keeps that leaves the rows as they are. -/
theorem Since.step (since : w.Since number entries) (mirrored : w.Mirrored) (allowed : w.Allows action)
    (same : (w.step action).atlas.entries = entries) : (w.step action).Since number entries := by
  have moves := moves_step mirrored.tabled.orderly allowed
  generalize w.step action = v at moves same
  cases moves with
  | call call buffers _ waiting _ =>
    cases since with
    | waits earlier later s split isNumber fresh rows behind =>
      exact .waits earlier later s (waiting.trans split) isNumber fresh rows behind
    | done holds behind =>
      refine .done ?_ (waiting ▸ behind)
      rw [buffers, call.fixes.tableBuffer, holds]
  | flush =>
    have adds : ∀ list : List Submission, (∀ l ∈ list, l.after.entries = entries) →
        ∀ l ∈ list ++ [w.recorded], l.after.entries = entries := by
      intro list behind l member
      rcases List.mem_append.mp member with earlier | new
      · exact behind l earlier
      · cases List.mem_singleton.mp new
        exact same
    cases since with
    | waits earlier later s split isNumber fresh rows behind =>
      refine .waits earlier (later ++ [w.recorded]) s ?_ isNumber fresh rows (adds later behind)
      rw [waiting_step_flush, split, List.append_assoc, List.cons_append]
    | done holds behind =>
      refine .done ?_ (adds w.waiting behind)
      rw [(fixes_flush w).tableBuffer, buffers_step_flush, holds]
  | @submit first rest isWaiting =>
    obtain ⟨bytes, mirroring⟩ := mirrored.mirroring
    have submitted := (mirroring.submit mirrored.tabled isWaiting (mirrored.accepts isWaiting)).table
    rw [step_submit isWaiting] at submitted
    cases since with
    | waits earlier later s split isNumber fresh rows behind =>
      rw [isWaiting] at split
      cases earlier with
      | nil =>
        obtain ⟨rfl, rfl⟩ := List.cons_eq_cons.mp split
        have table := mirroring.lists [] first rest isWaiting fresh
        rw [List.nil_append, List.foldl_cons, List.foldl_nil, rows] at table
        exact .done (table ▸ submitted) behind
      | cons other earlier =>
        rw [List.cons_append, List.cons_eq_cons] at split
        exact .waits earlier later s split.2 isNumber fresh rows behind
    | done holds behind =>
      rw [isWaiting] at behind
      have rows : first.onTable bytes = Entry.tableBytes entries := by
        rw [mirroring.table] at holds
        rw [Submission.onTable, behind first List.mem_cons_self, Option.some.inj holds, ite_self]
      exact .done (rows ▸ submitted) fun l member => behind l (List.mem_cons_of_mem first member)

theorem Since.run (run : Run v actions last) (mirrored : v.Mirrored)
    (same : ∀ done, done <+: actions → (done.foldl World.step v).atlas.entries = entries)
    (since : v.Since number entries) : last.Since number entries := by
  induction run with
  | done => exact since
  | @more v last action rest allowed _ ih =>
    have first : (v.step action).atlas.entries = entries := same [action] (by simp)
    refine ih (mirrored.step allowed) (fun done isPrefix => ?_) (since.step mirrored allowed first)
    exact same (action :: done) ((List.prefix_cons_inj action).mpr isPrefix)

/-- The list of a flush that had room for all that it staged makes the table on the device that of the atlas, and so it
stays, whatever else is recorded and submitted, as long as no row changes. -/
theorem mirrors_of_flush (starts : w₀.Starts) (run : Run w₀ before w)
    (roomy : Event.stagingOverflow ∉ (w.atlas.flush w.device w.staging).events)
    (course : Run (w.step .flush) during w₁) :
    (∀ s rest, w₁.waiting = s :: rest → s.number = w.flushes → Mirrors (w₁.step .submit).device s.after) ∧
    ((∀ s ∈ w₁.waiting, s.number ≠ w.flushes) →
      (∀ done, done <+: during →
        (done.foldl step (w.step .flush)).atlas.entries = (w.step .flush).atlas.entries) →
      Mirrors w₁.device w₁.atlas) := by
  have earlier : w.Mirrored := starts.mirrored.run run
  have behind : (w.step .flush).Mirrored := earlier.flush
  have mirrored : w₁.Mirrored := behind.run course
  have fresh : (w.step .flush).atlas.tableStale = false := earlier.tabled.leavesTable.1.fresh roomy
  constructor
  · intro s rest waits isList
    have member : s ∈ w₁.waiting := waits ▸ List.mem_cons_self
    have isRecorded := recorded_of_number earlier.tabled course member isList
    obtain ⟨fixes, _⟩ := mirrored.tabled.lists s member
    obtain ⟨bytes, mirroring⟩ := mirrored.mirroring
    have table := mirroring.lists [] s rest waits (isRecorded ▸ fresh)
    rw [List.nil_append, List.foldl_cons, List.foldl_nil] at table
    have submitted := (mirroring.submit mirrored.tabled waits (mirrored.accepts waits)).table
    have sameAtlas : (w₁.step .submit).atlas = w₁.atlas := by rw [step_submit waits]
    rw [table, sameAtlas, ← fixes.tableBuffer] at submitted
    exact mirrors_of_tableBytes submitted (mirrored.tabled.sized_of_fixes fixes)
  · intro submitted same
    have start : (w.step .flush).Since w.flushes (w.step .flush).atlas.entries :=
      .waits w.waiting [] w.recorded rfl rfl fresh rfl fun _ member => by cases member
    have rows : w₁.atlas.entries = (w.step .flush).atlas.entries := by
      rw [course.eq_foldl]
      exact same during (List.prefix_refl during)
    cases Since.run course behind same start with
    | waits _ _ _ split isNumber _ _ _ => exact absurd isNumber (submitted _ (by simp [split]))
    | done holds _ =>
      rw [← rows] at holds
      exact mirrors_of_tableBytes holds mirrored.tabled.entries_size

/-- The id is handed out and its pixels are set, and nothing is flushed so far. -/
def loaded : World := [Action.register, .set 2 1 1 0 ⟨#[200, 100, 50, 255]⟩].foldl step sample

theorem roomy_loaded : Event.stagingOverflow ∉ (loaded.atlas.flush loaded.device loaded.staging).events := by
  decide +kernel

theorem mirrors_of_flush_loaded : sample.Starts ∧ Run sample [.register, .set 2 1 1 0 ⟨#[200, 100, 50, 255]⟩] loaded ∧
    Event.stagingOverflow ∉ (loaded.atlas.flush loaded.device loaded.staging).events ∧
    Run (loaded.step .flush) [.submit] ((loaded.step .flush).step .submit) ∧
    Mirrors ((loaded.step .flush).step .submit).device loaded.recorded.after ∧
    Mirrors ((loaded.step .flush).step .submit).device ((loaded.step .flush).step .submit).atlas := by
  have run : Run sample [.register, .set 2 1 1 0 ⟨#[200, 100, 50, 255]⟩] loaded :=
    .more trivial (.more trivial (.done _))
  have waits : (loaded.step .flush).waiting = [loaded.recorded] := waiting_step_flush_of_none rfl
  have submitting : Run (loaded.step .flush) [.submit] ((loaded.step .flush).step .submit) :=
    .more (allows_submit waits) (.done _)
  have none : ((loaded.step .flush).step .submit).waiting = [] := congrArg World.waiting (step_submit waits)
  refine ⟨starts_sample, run, roomy_loaded, submitting, ?_, ?_⟩
  · exact (mirrors_of_flush starts_sample run roomy_loaded (.done _)).1 loaded.recorded [] waits rfl
  · apply (mirrors_of_flush starts_sample run roomy_loaded submitting).2
    · rw [none]
      intro s member
      cases member
    · intro done isPrefix
      rcases List.prefix_cons_iff.mp isPrefix with rfl | ⟨more, rfl, isNil⟩
      · rfl
      · rw [List.prefix_nil] at isNil
        rw [isNil, List.foldl_cons, List.foldl_nil, step_submit waits]

/-- Between two flushes the image stays as it is. -/
theorem image_of_unflushed (run : Run v actions last) (tabled : v.Tabled) (unflushed : Action.flush ∉ actions) :
    last.atlas.image = v.atlas.image := by
  induction run with
  | done => rfl
  | @more v last action rest allowed _ ih =>
    rw [List.mem_cons, not_or] at unflushed
    rw [ih (tabled.step allowed) unflushed.2]
    exact (call_of_step tabled.orderly (Ne.symm unflushed.1)).image

/-- Where the image is another one behind a flush, rows are copied to the table unless that was put off. -/
theorem spares_iff_of_moved (tabled : w.Tabled) (moved : (w.step .flush).atlas.image.handle ≠ w.atlas.image.handle) :
    (∀ c ∈ w.recorded.commands, c.SparesBuffers) ↔ w.recorded.after.tableStale = true := by
  cases tabled.leavesTable.1 with
  | renewed fresh renews => exact iff_of_false renews.not_spares fun stale => by cases fresh.symm.trans stale
  | upToDate _ _ _ sameHandle _ => exact absurd sameHandle moved
  | putOff stale _ spares => exact iff_of_true spares stale

/-- Behind an accepted list the valid rows are those of its flush if the list copies them, or if they were before. -/
theorem current_submit_iff (tabled : w.Tabled) (waits : w.waiting = s :: rest)
    (accepted : (w.device.submit w.staging s.commands).2 = .ok ()) :
    Current (w.step .submit).device s.after ↔
      (¬∀ c ∈ s.commands, c.SparesBuffers) ∨ Current w.device s.after := by
  obtain ⟨fixes, tables⟩ := tabled.lists s (waits ▸ List.mem_cons_self)
  obtain ⟨bytes, holds, size⟩ := tabled.sized
  have sized := tabled.sized_of_fixes fixes
  rw [← fixes.config] at size
  rw [← fixes.tableBuffer] at holds
  have submitted := tables.submit accepted sized size holds
  rw [step_submit waits]
  by_cases spares : ∀ c ∈ s.commands, c.SparesBuffers
  · rw [Submission.onTable_of_spares spares, ← holds] at submitted
    constructor
    · exact fun current => Or.inr (current.of_buffer submitted.symm)
    · exact fun either => (either.resolve_left fun copies => copies spares).of_buffer submitted
  · rw [Submission.onTable, if_neg spares] at submitted
    exact iff_of_true (mirrors_of_tableBytes submitted sized).current (Or.inl spares)

/-- A row that was valid on the device and has changed since is valid there still, if a flush that shows another image
puts the table off. -/
theorem not_current_of_putOff {id : Nat} {e : Entry} (held : v.Mirrored) (none : v.waiting = [])
    (wasFresh : v.atlas.tableStale = false) (row : v.atlas.entry? id = some e) (valid : e.isValid = true)
    (mirrored : w.Mirrored) (device : w.device = v.device) (fixes : Fixes v.atlas w.atlas) (waits : w.waiting = [])
    (moved : (w.step .flush).atlas.image.handle ≠ w.atlas.image.handle) (stale : w.recorded.after.tableStale = true)
    (changed : w.recorded.after.entry? id ≠ some e) :
    ¬Current ((w.step .flush).step .submit).device w.recorded.after := by
  have rows : (w.step .flush).device.rows? w.recorded.after.descriptor.tableBuffer = some v.atlas.entries.toList := by
    obtain ⟨bytes, mirroring⟩ := held.mirroring
    have live := mirroring.live wasFresh
    have table := mirroring.table
    rw [none, List.foldl_nil] at live
    rw [← device, ← buffers_step_flush, live, ← fixes.tableBuffer, ← (fixes_recorded w).tableBuffer] at table
    exact Device.rows?_of_tableBytes table
  have list := waiting_step_flush_of_none waits
  rw [current_submit_iff mirrored.flush.tabled list (mirrored.flush.accepts list)]
  rintro (copies | ⟨others, isHeld, agree⟩)
  · exact copies ((spares_iff_of_moved mirrored.tabled moved).mpr stale)
  · cases rows.symm.trans isHeld
    exact changed (agree id e (Array.getElem?_toList.trans row) valid)

/-- Where a flush shows another image than the flush before, the valid rows on the device are those of the atlas once
its list is submitted, just if the flush has not put off the table, or if they were those of the atlas before. The flush
puts the table off only if it has no room left to stage it. -/
theorem current_iff (begins : w₀.Begins) (run : Run w₀ before u) (calls : Run (u.step .flush) between w)
    (unflushed : Action.flush ∉ between)
    (moved : (w.step .flush).atlas.descriptor.image.handle ≠ (u.step .flush).atlas.descriptor.image.handle)
    (course : Run (w.step .flush) during w₁) (waits : w₁.waiting = s :: rest) (isList : s.number = w.flushes) :
    ((w₁.device.submit w₁.staging s.commands).2 = .ok () →
      (Current (w₁.step .submit).device s.after ↔ s.after.tableStale = false ∨ Current w₁.device s.after)) ∧
    (Event.stagingOverflow ∉ (w.atlas.flush w.device w.staging).events → s.after.tableStale = false) ∧
    (w₀.device.alignment = 1 ∨ w₀.device.alignment = 2 ∨ 4 ≤ w₀.device.alignment →
      (w₁.device.submit w₁.staging s.commands).2 = .ok ()) := by
  have flushed : (u.step .flush).Tabled := (begins.tabled.run run).flush
  have tabled : w.Tabled := flushed.run calls
  have tabledAt : w₁.Tabled := tabled.flush.run course
  have isRecorded := recorded_of_number tabled course (waits ▸ List.mem_cons_self) isList
  refine ⟨fun accepted => ?_, fun roomy => ?_, fun alignment => ?_⟩
  · have handle := congrArg OwnedImage.handle (image_of_unflushed calls flushed unflushed)
    have spares := spares_iff_of_moved tabled fun same => moved (same.trans handle)
    rw [← isRecorded] at spares
    rw [current_submit_iff tabledAt waits accepted, spares, Bool.not_eq_true]
  · rw [isRecorded]
    exact tabled.leavesTable.1.fresh roomy
  · have starts := begins.starts alignment
    have before : w.Mirrored := .run calls (.flush (.run run starts.mirrored))
    have mirrored : w₁.Mirrored := .run course before.flush
    exact mirrored.accepts waits

/-- All lists are submitted, and the next flush shows the image of the repack. -/
def readying : List Action := [.submit, .submit, .finish]

def readied : World := readying.foldl step (asked.step .flush)

theorem waiting_asked : (asked.step .flush).waiting = [loaded.recorded, asked.recorded] := by
  have isDrawn : drawn = loaded.step .flush := by
    simp only [drawn, drawing, loaded, List.foldl_cons, List.foldl_nil]
  have isAsked : asked.waiting = drawn.waiting := rfl
  rw [waiting_step_flush, isAsked, isDrawn, waiting_step_flush_of_none rfl, List.singleton_append]

theorem run_readied : Run (asked.step .flush) readying readied ∧ readied.waiting = [] := by
  have first := step_submit waiting_asked
  have second := step_submit (congrArg World.waiting first)
  have none : (((asked.step .flush).step .submit).step .submit).waiting = [] := congrArg World.waiting second
  have run : Run (asked.step .flush) readying readied :=
    .more (allows_submit waiting_asked) (.more (allows_submit (congrArg World.waiting first)) (.more none (.done _)))
  exact ⟨run, none⟩

theorem readied_swaps : (asked.step .flush).atlas.image.handle = 2 ∧ (readied.step .flush).atlas.image.handle = 3 ∧
    Event.stagingOverflow ∉ (readied.atlas.flush readied.device readied.staging).events ∧
    readied.atlas.tableStale = false ∧ (readied.atlas.entry? 2).map Entry.isValid = some true := by
  decide +kernel

theorem current_iff_readied : sample.Begins ∧ Run sample (drawing ++ [.requestRepack .keepCapacity]) asked ∧
    Run (asked.step .flush) readying readied ∧ Action.flush ∉ readying ∧
    (readied.step .flush).atlas.descriptor.image.handle ≠ (asked.step .flush).atlas.descriptor.image.handle ∧
    (readied.step .flush).waiting = [readied.recorded] ∧
    ((readied.step .flush).device.submit (readied.step .flush).staging readied.recorded.commands).2 = .ok () ∧
    Current ((readied.step .flush).step .submit).device readied.recorded.after := by
  obtain ⟨run, none⟩ := run_readied
  obtain ⟨old, new, roomy, _⟩ := readied_swaps
  have unflushed : Action.flush ∉ readying := by simp [readying]
  have moved : (readied.step .flush).atlas.descriptor.image.handle ≠
      (asked.step .flush).atlas.descriptor.image.handle := by
    rw [descriptor_image, descriptor_image, old, new]
    decide
  have waits := waiting_step_flush_of_none none
  obtain ⟨current, fresh, accepts⟩ := current_iff starts_sample.begins run_asked run unflushed moved
    (.done (readied.step .flush)) waits (recorded_number readied)
  have alignment : sample.device.alignment = 1 := rfl
  have accepted := accepts (Or.inl alignment)
  exact ⟨starts_sample.begins, run_asked, run, unflushed, moved, waits, accepted,
    (current accepted).mpr (Or.inl (fresh roomy))⟩

/-- The texture is cleared before the image of the repack is shown, and others take most of the staging buffer. -/
def clearing : List Action := [.clear 2, .reserve 100 1 ⟨#[]⟩]

def cleared : World := clearing.foldl step readied

theorem clearing_keeps (w : World) :
    (clearing.foldl step w).device = w.device ∧ (clearing.foldl step w).waiting = w.waiting := by
  simp only [clearing, List.foldl_cons, List.foldl_nil, step]
  split <;> exact ⟨rfl, rfl⟩

theorem cleared_keeps : cleared.device = readied.device ∧ cleared.waiting = readied.waiting := clearing_keeps readied

theorem run_cleared : Run readied clearing cleared := by
  apply run_foldl
  simp [clearing, Allows]

theorem cleared_puts_off : (cleared.step .flush).atlas.image.handle = 3 ∧
    cleared.recorded.after.tableStale = true ∧ (cleared.recorded.after.entry? 2).map Entry.isValid = some false := by
  decide +kernel

/-- The row of the texture that was cleared is still marked as valid on the device, beside the new image. -/
theorem not_current_cleared : sample.Begins ∧ Run sample (drawing ++ [.requestRepack .keepCapacity]) asked ∧
    Run (asked.step .flush) (readying ++ clearing) cleared ∧ Action.flush ∉ readying ++ clearing ∧
    (cleared.step .flush).atlas.descriptor.image.handle ≠ (asked.step .flush).atlas.descriptor.image.handle ∧
    (cleared.step .flush).waiting = [cleared.recorded] ∧
    ((cleared.step .flush).device.submit (cleared.step .flush).staging cleared.recorded.commands).2 = .ok () ∧
    ¬Current ((cleared.step .flush).step .submit).device cleared.recorded.after := by
  obtain ⟨readies, none⟩ := run_readied
  obtain ⟨old, _, _, fresh, wasValid⟩ := readied_swaps
  obtain ⟨new, stale, isBlank⟩ := cleared_puts_off
  obtain ⟨device, waiting⟩ := cleared_keeps
  have run := readies.append run_cleared
  have unflushed : Action.flush ∉ readying ++ clearing := by simp [readying, clearing]
  have moved : (cleared.step .flush).atlas.descriptor.image.handle ≠
      (asked.step .flush).atlas.descriptor.image.handle := by
    rw [descriptor_image, descriptor_image, old, new]
    decide
  have asking : (asked.step .flush).Mirrored := (Mirrored.run run_asked starts_sample.mirrored).flush
  have readiedAt : readied.Mirrored := .run readies asking
  have clearedAt : cleared.Mirrored := .run run asking
  have waits := waiting_step_flush_of_none (waiting.trans none)
  have accepted := clearedAt.flush.accepts waits
  refine ⟨starts_sample.begins, run_asked, run, unflushed, moved, waits, accepted, ?_⟩
  obtain ⟨e, isRow, isValid⟩ := Option.map_eq_some_iff.mp wasValid
  have apart : (cleared.step .flush).atlas.image.handle ≠ cleared.atlas.image.handle := by
    rw [new, image_of_unflushed run asking.tabled unflushed, old]
    decide
  refine not_current_of_putOff readiedAt none fresh isRow isValid clearedAt device
    (fixes_of_run run_cleared readiedAt.tabled) (waiting.trans none) apart stale ?_
  intro row
  rw [row, Option.map_some, isValid] at isBlank
  cases isBlank

end TextureLoom.Atlas.World
