import TextureLoom.Proofs.Atlas.Calling

set_option autoImplicit false

namespace TextureLoom.Atlas

variable {a b : Atlas} {d after : Device} {s : Submission} {staging later : Staging} {bytes : ByteArray}

/-- The table on the device has just the rows of the atlas, those of reserved ids included. -/
def Mirrors (d : Device) (a : Atlas) : Prop :=
  ∃ rows, d.rows? a.descriptor.tableBuffer = some rows ∧ rows.length = a.config.maxTextureId ∧
    ∀ id, rows[id]? = a.entry? id

/-- Each row of the table on the device that is marked as valid is that of the atlas. -/
def Current (d : Device) (a : Atlas) : Prop :=
  ∃ rows, d.rows? a.descriptor.tableBuffer = some rows ∧
    ∀ id e, rows[id]? = some e → e.isValid = true → a.entry? id = some e

theorem mirrors_of_tableBytes (holds : d.buffers.get? a.tableBuffer = some (Entry.tableBytes a.entries))
    (sized : a.entries.size = a.config.maxTextureId) : Mirrors d a :=
  ⟨a.entries.toList, Device.rows?_of_tableBytes holds, sized, fun _ => Array.getElem?_toList⟩

theorem Mirrors.current (mirrors : Mirrors d a) : Current d a := by
  obtain ⟨rows, isRows, _, rowOf⟩ := mirrors
  refine ⟨rows, isRows, fun id e isRow _ => ?_⟩
  rw [← rowOf, isRow]

theorem Current.of_buffer (current : Current d a)
    (same : after.buffers.get? a.tableBuffer = d.buffers.get? a.tableBuffer) : Current after a := by
  obtain ⟨rows, isRows, valid⟩ := current
  refine ⟨rows, ?_, valid⟩
  rw [← isRows]
  exact congrArg (Option.map Entry.readAll) same

namespace Submission

/-- What a list leaves of the table: the rows as they were behind its flush, if it writes to a buffer at all. -/
def onTable (bytes : ByteArray) (s : Submission) : ByteArray :=
  if ∀ c ∈ s.commands, c.SparesBuffers then bytes else Entry.tableBytes s.after.entries

/-- The list copies all rows to the table, or it writes to no buffer. -/
def Tables (staging : Staging) (s : Submission) : Prop :=
  Renews s.after staging s.commands ∨ ∀ c ∈ s.commands, c.SparesBuffers

theorem Tables.extend (tables : s.Tables staging) (grown : later.Extends staging) : s.Tables later :=
  tables.imp_left fun renews => renews.extend grown

theorem onTable_of_renews (renews : Renews s.after staging s.commands) :
    s.onTable bytes = Entry.tableBytes s.after.entries := if_neg renews.not_spares

theorem onTable_of_spares (spares : ∀ c ∈ s.commands, c.SparesBuffers) : s.onTable bytes = bytes := if_pos spares

/-- An accepted list leaves just this of the table. -/
theorem Tables.submit (tables : s.Tables staging) (accepted : (d.submit staging s.commands).2 = .ok ())
    (sized : s.after.entries.size = s.after.config.maxTextureId) (size : bytes.size = s.after.config.tableBytes)
    (holds : d.buffers.get? s.after.tableBuffer = some bytes) :
    (d.submit staging s.commands).1.buffers.get? s.after.tableBuffer = some (s.onTable bytes) := by
  rw [Device.buffers_submit accepted, holds, Option.map_some]
  rcases tables with renews | spares
  · rw [renews.result sized size, onTable_of_renews renews]
  · rw [foldl_onBuffer_of_spares _ _ spares, onTable_of_spares spares]

end Submission

namespace World

variable {w v last : World} {action : Action} {actions : List Action}

/-- The list that the next flush records. -/
def recorded (w : World) : Submission :=
  ⟨w.flushes, (w.step .flush).atlas, w.accepted, (w.atlas.flush w.device w.staging).commands.toList⟩

theorem fixes_flush (w : World) : Fixes w.atlas (w.step .flush).atlas := w.frame.leads_flush.fixes

theorem buffers_step_flush (w : World) : (w.step .flush).device.buffers = w.device.buffers :=
  buffers_flush w.atlas w.device w.staging

theorem fixes_recorded (w : World) : Fixes w.atlas w.recorded.after := fixes_flush w

theorem recorded_number (w : World) : w.recorded.number = w.flushes := rfl

theorem waiting_step_flush (w : World) : (w.step .flush).waiting = w.waiting ++ [w.recorded] := rfl

/-- The next flush records the only list that waits, if none waits before. -/
theorem waiting_step_flush_of_none (none : w.waiting = []) : (w.step .flush).waiting = [w.recorded] := by
  rw [waiting_step_flush, none, List.nil_append]

/-- What an allowed action does, with all that neither records nor submits a list taken together. -/
inductive Moves (w : World) : World → Prop where
  | call {v : World} : Call w.atlas v.atlas → v.device.buffers = w.device.buffers →
      (w.waiting = [] ∨ v.staging.Extends w.staging) → v.waiting = w.waiting → v.flushes = w.flushes → Moves w v
  | flush : Moves w (w.step .flush)
  | submit {s : Submission} {rest : List Submission} : w.waiting = s :: rest →
      Moves w { w with device := (w.device.submit w.staging s.commands).1, waiting := rest }

theorem step_set_keeps (w : World) (id width height pitch : Nat) (bytes : ByteArray) :
    (w.step (.set id width height pitch bytes)).device = w.device ∧
      (w.step (.set id width height pitch bytes)).staging = w.staging ∧
      (w.step (.set id width height pitch bytes)).waiting = w.waiting ∧
      (w.step (.set id width height pitch bytes)).flushes = w.flushes := by
  simp only [step]
  split
  · split <;> exact ⟨rfl, rfl, rfl, rfl⟩
  · exact ⟨rfl, rfl, rfl, rfl⟩

theorem step_submit {rest : List Submission} (waits : w.waiting = s :: rest) : w.step .submit =
    { w with device := (w.device.submit w.staging s.commands).1, waiting := rest } := by
  simp only [step, waits]

theorem buffers_destroyImages (handles : List Nat) (d : Device) :
    (handles.foldl Device.destroyImage d).buffers = d.buffers :=
  List.foldlRecOn (motive := fun after => after.buffers = d.buffers) handles Device.destroyImage rfl
    fun before same handle _ => (Device.destroyImage_keeps before handle).2.2.1.trans same

theorem moves_step (orderly : w.atlas.Orderly) (allowed : w.Allows action) : w.Moves (w.step action) := by
  have calls : ∀ other : Action, other ≠ .flush → Call w.atlas (w.step other).atlas :=
    fun other distinct => call_of_step orderly distinct
  cases action with
  | flush => exact .flush
  | submit =>
    rcases waits : w.waiting with _ | ⟨s, rest⟩
    · exact absurd waits allowed
    · rw [step_submit waits]
      exact .submit waits
  | set id width height pitch bytes =>
    obtain ⟨device, staging, waiting, flushes⟩ := step_set_keeps w id width height pitch bytes
    refine .call (calls _ (by simp)) (congrArg Device.buffers device) (Or.inr ?_) waiting flushes
    rw [staging]
    exact .refl _
  | finish => exact .call (calls _ (by simp)) (buffers_destroyImages _ _) (Or.inl allowed) rfl rfl
  | reserve count alignment bytes =>
    have call := calls (.reserve count alignment bytes) (by simp)
    simp only [step, Staging.allocate] at call ⊢
    rcases found : w.staging.nextRange? count alignment with _ | ⟨start, stop⟩
    · rw [found] at call
      exact .call call rfl (Or.inr (.refl _)) rfl rfl
    · rw [found] at call
      have range : w.staging.IsRange count (max alignment 1) start stop := by
        refine Staging.isRange_of_nextRange? (by omega) ?_
        rw [← found, Staging.nextRange?, Staging.nextRange?, Nat.max_assoc, Nat.max_self]
      exact .call call rfl (Or.inr (Staging.extends_use_write range bytes)) rfl rfl
  | register => exact .call (calls _ (by simp)) rfl (Or.inr (.refl _)) rfl rfl
  | clear id => exact .call (calls _ (by simp)) rfl (Or.inr (.refl _)) rfl rfl
  | remove id => exact .call (calls _ (by simp)) rfl (Or.inr (.refl _)) rfl rfl
  | requestLayers count => exact .call (calls _ (by simp)) rfl (Or.inr (.refl _)) rfl rfl
  | requestRepack mode => exact .call (calls _ (by simp)) rfl (Or.inr (.refl _)) rfl rfl
  | limitMemory limit => exact .call (calls _ (by simp)) rfl (Or.inr (.refl _)) rfl rfl

/-- The table is on the device in its size, and each list that waits copies its rows to it or leaves it. -/
structure Tabled (w : World) : Prop where
  orderly : w.atlas.Orderly
  sized : ∃ bytes, w.device.buffers.get? w.atlas.tableBuffer = some bytes ∧ bytes.size = w.atlas.config.tableBytes
  numbered : ∀ s ∈ w.waiting, s.number < w.flushes
  lists : ∀ s ∈ w.waiting, Fixes w.atlas s.after ∧ s.Tables w.staging

namespace Tabled

theorem entries_size (tabled : w.Tabled) : w.atlas.entries.size = w.atlas.config.maxTextureId := by
  obtain ⟨_, registry⟩ := tabled.orderly.registry
  exact registry.entries_size

theorem sized_of_fixes (tabled : w.Tabled) (fixes : Fixes w.atlas b) : b.entries.size = b.config.maxTextureId := by
  rw [fixes.entries_size, fixes.config, tabled.entries_size]

/-- What the next flush leaves of the table. -/
theorem leavesTable (tabled : w.Tabled) : (w.atlas.flush w.device w.staging).LeavesTable w.atlas ∧
    (w.atlas.flush w.device w.staging).staging.Extends w.staging := by
  obtain ⟨_, registry⟩ := tabled.orderly.registry
  exact leavesTable_flush registry tabled.orderly.positive w.device w.staging

theorem recorded (tabled : w.Tabled) : w.recorded.Tables (w.step .flush).staging := by
  cases tabled.leavesTable.1 with
  | renewed _ renews => exact Or.inl renews
  | upToDate _ _ _ _ spares => exact Or.inr spares
  | putOff _ _ spares => exact Or.inr spares

theorem step (tabled : w.Tabled) (allowed : w.Allows action) : (w.step action).Tabled := by
  have orderly : (w.step action).atlas.Orderly := (succeeds_step tabled.orderly action).toOrderly
  obtain ⟨bytes, holds, size⟩ := tabled.sized
  have moves := moves_step tabled.orderly allowed
  generalize w.step action = v at orderly moves
  cases moves with
  | call call buffers staging waiting flushes =>
    have fixes := call.fixes
    refine ⟨orderly, ⟨bytes, ?_, ?_⟩, ?_, ?_⟩
    · rw [buffers, fixes.tableBuffer, holds]
    · rw [size, fixes.config]
    · rw [waiting, flushes]
      exact tabled.numbered
    · rw [waiting]
      intro s member
      obtain ⟨before, tables⟩ := tabled.lists s member
      refine ⟨fixes.symm.trans before, ?_⟩
      rcases staging with none | grown
      · rw [none] at member
        cases member
      · exact tables.extend grown
  | flush =>
    have fixes := fixes_flush w
    have grown := tabled.leavesTable.2
    refine ⟨orderly, ⟨bytes, ?_, ?_⟩, ?_, ?_⟩
    · rw [fixes.tableBuffer, buffers_step_flush, holds]
    · rw [size, fixes.config]
    · intro s member
      rcases List.mem_append.mp member with earlier | last
      · exact Nat.lt_succ_of_lt (tabled.numbered s earlier)
      · cases List.mem_singleton.mp last
        exact Nat.lt_succ_self w.flushes
    · intro s member
      rcases List.mem_append.mp member with earlier | last
      · obtain ⟨before, tables⟩ := tabled.lists s earlier
        exact ⟨fixes.symm.trans before, tables.extend grown⟩
      · cases List.mem_singleton.mp last
        exact ⟨.refl _, tabled.recorded⟩
  | @submit s rest waits =>
    have kept := Device.bufferSize_submit w.device w.staging w.atlas.tableBuffer s.commands
    rw [holds, Option.map_some, size] at kept
    refine ⟨orderly, Option.map_eq_some_iff.mp kept, fun s member => ?_, fun s member => ?_⟩
    · exact tabled.numbered s (waits ▸ List.mem_cons_of_mem _ member)
    · exact tabled.lists s (waits ▸ List.mem_cons_of_mem _ member)

theorem flush (tabled : w.Tabled) : (w.step .flush).Tabled := tabled.step trivial

theorem run (run : Run w actions last) (tabled : w.Tabled) : last.Tabled := by
  induction run with
  | done => exact tabled
  | more allowed _ ih => exact ih (tabled.step allowed)

end Tabled

theorem fixes_of_run (run : Run w actions last) (tabled : w.Tabled) : Fixes w.atlas last.atlas := by
  induction run with
  | done => exact .refl _
  | @more w last action rest allowed _ ih =>
    have first : Fixes w.atlas (w.step action).atlas := by
      have moves := moves_step tabled.orderly allowed
      generalize w.step action = v at moves
      cases moves with
      | call call _ _ _ _ => exact call.fixes
      | flush => exact fixes_flush w
      | submit _ => exact .refl _
    exact first.trans (ih (tabled.step allowed))

/-- An atlas was just created on a device, whatever the copy alignment of the device is. -/
def Begins (w : World) : Prop :=
  ∃ config device given, Atlas.create config device given = .ok (w.atlas, w.device, w.staging) ∧
    w.waiting = [] ∧ w.accepted = (fun _ => none) ∧ w.flushes = 0

theorem Starts.begins (starts : w.Starts) : w.Begins := by
  obtain ⟨config, device, given, _, created⟩ := starts
  exact ⟨config, device, given, created⟩

/-- The alignment of a device is the one that it was made with. -/
theorem Begins.starts (begins : w.Begins)
    (alignment : w.device.alignment = 1 ∨ w.device.alignment = 2 ∨ 4 ≤ w.device.alignment) : w.Starts := by
  obtain ⟨config, device, given, created, rest⟩ := begins
  obtain ⟨_, _, handle, isImage, _⟩ := create_eq_ok_iff.mp created
  have same : w.device.alignment = device.alignment := by
    rw [(Device.eq_of_createImage isImage).2]
    rfl
  rw [same] at alignment
  exact ⟨config, device, given, alignment, created, rest⟩

theorem Begins.tabled (begins : w.Begins) : w.Tabled := by
  obtain ⟨config, device, given, created, noneWaits, _⟩ := begins
  obtain ⟨_, _, handle, isImage, isAtlas⟩ := create_eq_ok_iff.mp created
  refine ⟨orderly_of_create created, ⟨Bytes.zeros config.tableBytes, ?_, ?_⟩, ?_, ?_⟩
  · rw [Frame.buffers_of_createImage isImage, isAtlas]
    exact Table.get?_insert_self _ _ _
  · rw [Bytes.zeros_size, isAtlas]
    rfl
  · rw [noneWaits]
    intro s member
    cases member
  · rw [noneWaits]
    intro s member
    cases member

/-- The device holds this table, and the lists that wait make of it what the atlas had behind their flushes, unless an
upload of the table was put off. -/
structure Mirroring (bytes : ByteArray) (w : World) : Prop where
  table : w.device.buffers.get? w.atlas.tableBuffer = some bytes
  lists : ∀ earlier s later, w.waiting = earlier ++ s :: later → s.after.tableStale = false →
    (earlier ++ [s]).foldl Submission.onTable bytes = Entry.tableBytes s.after.entries
  live : w.atlas.tableStale = false → w.waiting.foldl Submission.onTable bytes = Entry.tableBytes w.atlas.entries

namespace Mirroring

/-- What a flush leaves of the table, once its list is submitted behind the others. -/
theorem recorded (mirroring : w.Mirroring bytes) (tabled : w.Tabled)
    (fresh : (w.step .flush).atlas.tableStale = false) :
    (w.waiting ++ [w.recorded]).foldl Submission.onTable bytes = Entry.tableBytes (w.step .flush).atlas.entries := by
  rw [List.foldl_append, List.foldl_cons, List.foldl_nil]
  cases tabled.leavesTable.1 with
  | renewed _ renews => exact Submission.onTable_of_renews renews
  | upToDate _ wasFresh entries _ spares =>
    rw [Submission.onTable_of_spares spares, mirroring.live wasFresh]
    exact congrArg Entry.tableBytes entries.symm
  | putOff stale _ _ => cases stale.symm.trans fresh

theorem call (mirroring : w.Mirroring bytes) (call : Call w.atlas v.atlas)
    (buffers : v.device.buffers = w.device.buffers) (waiting : v.waiting = w.waiting) : v.Mirroring bytes where
  table := by
    rw [buffers, call.fixes.tableBuffer]
    exact mirroring.table
  lists := by
    rw [waiting]
    exact mirroring.lists
  live := by
    intro fresh
    obtain ⟨wasFresh, entries⟩ := call.noted fresh
    rw [waiting, entries]
    exact mirroring.live wasFresh

theorem flush (mirroring : w.Mirroring bytes) (tabled : w.Tabled) : (w.step .flush).Mirroring bytes where
  table := by
    rw [(fixes_flush w).tableBuffer, buffers_step_flush]
    exact mirroring.table
  lists := by
    intro earlier s later split fresh
    have isWaiting : w.waiting ++ [w.recorded] = earlier ++ s :: later := split
    rcases List.eq_nil_or_concat later with rfl | ⟨others, final, rfl⟩
    · obtain ⟨rfl, isLast⟩ := List.append_inj' isWaiting rfl
      cases isLast
      exact mirroring.recorded tabled fresh
    · rw [List.concat_eq_append, ← List.cons_append, ← List.append_assoc] at isWaiting
      exact mirroring.lists earlier s others (List.append_inj' isWaiting rfl).1 fresh
  live := mirroring.recorded tabled

theorem submit {rest : List Submission} (mirroring : w.Mirroring bytes) (tabled : w.Tabled)
    (waits : w.waiting = s :: rest) (accepted : (w.device.submit w.staging s.commands).2 = .ok ()) :
    (w.step .submit).Mirroring (s.onTable bytes) := by
  obtain ⟨fixes, tables⟩ := tabled.lists s (waits ▸ List.mem_cons_self)
  have size : bytes.size = s.after.config.tableBytes := by
    obtain ⟨held, holds, size⟩ := tabled.sized
    rw [mirroring.table] at holds
    cases holds
    rw [size, fixes.config]
  rw [step_submit waits]
  refine ⟨?_, ?_, ?_⟩
  · rw [← fixes.tableBuffer]
    apply tables.submit accepted (tabled.sized_of_fixes fixes) size
    rw [fixes.tableBuffer, mirroring.table]
  · intro earlier other later split fresh
    have isRest : rest = earlier ++ other :: later := split
    exact mirroring.lists (s :: earlier) other later (by rw [waits, isRest, List.cons_append]) fresh
  · intro fresh
    have live := mirroring.live fresh
    rwa [waits] at live

end Mirroring

/-- What holds of a world in the course of a run. -/
structure Mirrored (w : World) : Prop where
  sound : w.Sound (fun _ _ => False) fun _ => False
  tabled : w.Tabled
  mirroring : ∃ bytes, w.Mirroring bytes

namespace Mirrored

theorem accepts {rest : List Submission} (mirrored : w.Mirrored) (waits : w.waiting = s :: rest) :
    (w.device.submit w.staging s.commands).2 = .ok () := by
  obtain ⟨performs, _, _⟩ := mirrored.sound.submit waits
  exact congrArg Prod.snd performs.submit

theorem step (mirrored : w.Mirrored) (allowed : w.Allows action) : (w.step action).Mirrored where
  sound := mirrored.sound.step (fun _ _ _ isPromised => isPromised.elim) allowed (spares_none action)
  tabled := mirrored.tabled.step allowed
  mirroring := by
    obtain ⟨bytes, mirroring⟩ := mirrored.mirroring
    have moves := moves_step mirrored.tabled.orderly allowed
    generalize w.step action = v at moves
    cases moves with
    | call call buffers _ waiting _ => exact ⟨bytes, mirroring.call call buffers waiting⟩
    | flush => exact ⟨bytes, mirroring.flush mirrored.tabled⟩
    | @submit s rest waits =>
      have submitted := mirroring.submit mirrored.tabled waits (mirrored.accepts waits)
      rw [step_submit waits] at submitted
      exact ⟨s.onTable bytes, submitted⟩

theorem flush (mirrored : w.Mirrored) : (w.step .flush).Mirrored := mirrored.step trivial

theorem run (run : Run w actions last) (mirrored : w.Mirrored) : last.Mirrored := by
  induction run with
  | done => exact mirrored
  | more allowed _ ih => exact ih (mirrored.step allowed)

end Mirrored

theorem Starts.mirrored (starts : w.Starts) : w.Mirrored where
  sound := sound_of_starts starts (Or.inr fun _ isTracked => isTracked)
  tabled := starts.begins.tabled
  mirroring := by
    obtain ⟨bytes, holds, _⟩ := starts.begins.tabled.sized
    obtain ⟨config, device, given, _, created, noneWaits, _⟩ := starts
    obtain ⟨_, _, handle, _, isAtlas⟩ := create_eq_ok_iff.mp created
    refine ⟨bytes, holds, fun earlier s later split => ?_, fun fresh => ?_⟩
    · rw [noneWaits] at split
      exact absurd split (by simp)
    · rw [isAtlas] at fresh
      cases fresh

end World

end TextureLoom.Atlas
