import TextureLoom.Proofs.Atlas.Adopting
import TextureLoom.Proofs.Atlas.Buffers
import TextureLoom.Proofs.Atlas.Recording

set_option autoImplicit false

namespace TextureLoom.Atlas

variable {a b : Atlas}

/-- What no call and no flush changes of an atlas. -/
structure Fixes (a b : Atlas) : Prop where
  config : b.config = a.config
  alignment : b.alignment = a.alignment
  tableBuffer : b.tableBuffer = a.tableBuffer
  entries_size : b.entries.size = a.entries.size

namespace Fixes

theorem refl (a : Atlas) : Fixes a a := ⟨rfl, rfl, rfl, rfl⟩

theorem trans {c : Atlas} (first : Fixes a b) (second : Fixes b c) : Fixes a c where
  config := second.config.trans first.config
  alignment := second.alignment.trans first.alignment
  tableBuffer := second.tableBuffer.trans first.tableBuffer
  entries_size := second.entries_size.trans first.entries_size

theorem symm (fixes : Fixes a b) : Fixes b a :=
  ⟨fixes.config.symm, fixes.alignment.symm, fixes.tableBuffer.symm, fixes.entries_size.symm⟩

theorem of_edits {id : Nat} (edits : Edits id a b) : Fixes a b :=
  ⟨edits.config, edits.alignment, edits.tableBuffer, edits.entries_size⟩

end Fixes

theorem fixes_adopt (a : Atlas) (r : Repack) : Fixes a (a.adopt r) := by
  let shown : Atlas := { a with image := r.image, retired := a.retired ++ [a.image.handle], repack := none }
  have settled : Fixes a ((List.range a.slots.size).foldl (settle r.places) shown) :=
    List.foldlRecOn (motive := fun b => Fixes a b) _ (settle r.places) ⟨rfl, rfl, rfl, rfl⟩
      fun b before id _ => before.trans (.of_edits (edits_settle r.places b id))
  exact ⟨settled.config, settled.alignment, settled.tableBuffer, settled.entries_size⟩

theorem fixes_refreshEntries (a : Atlas) : Fixes a (Frame.refreshEntries a) := by
  refine List.foldlRecOn (motive := fun b => Fixes a b) _ _ (.refl a) fun b before id _ => ?_
  split
  · exact before.trans (.of_edits (edits_showPlace b id))
  · exact before

theorem FlushStep.fixes (step : FlushStep a b) : Fixes a b := by
  cases step with
  | adopt running ready => exact fixes_adopt a _
  | enlarge handle grows =>
    obtain ⟨config, alignment, tableBuffer, entries_size⟩ := fixes_refreshEntries
      { a with
        image := (Frame.copyCommands a.image ⟨handle, _, .undefined⟩).2
        retired := a.retired ++ [a.image.handle] }
    exact ⟨config, alignment, tableBuffer, entries_size⟩
  | place texture unplaced found =>
    obtain ⟨p, situates⟩ := situates_of_place? found
    exact .of_edits situates.edits
  | reveal texture placed => exact .of_edits ((edits_modifySlot a _ _).trans (edits_showPlace _ _))
  | _ => exact ⟨rfl, rfl, rfl, rfl⟩

namespace Frame

variable {f g next : Frame} {commands : List Command}

theorem Leads.fixes (leads : f.Leads g) : Fixes f.atlas g.atlas := by
  rw [Leads] at leads
  generalize g.atlas = b at leads
  induction leads with
  | refl => exact .refl _
  | tail _ step before => exact before.trans step.fixes

theorem announce_keeps (f : Frame) (event : Event) : (f.announce event).staging = f.staging ∧
    (f.announce event).commands = f.commands ∧ (f.announce event).device = f.device := by
  unfold announce
  split <;> exact ⟨rfl, rfl, rfl⟩

theorem mem_announce (f : Frame) (event : Event) : event ∈ (f.announce event).events := by
  unfold announce
  split
  · rename_i known
    exact List.contains_iff_mem.mp known
  · exact List.mem_append_right _ List.mem_cons_self

theorem turnRepack_keeps (f : Frame) (layout : Layout) : (f.turnRepack layout).staging = f.staging ∧
    (f.turnRepack layout).events = f.events ∧ (f.turnRepack layout).device = f.device := by
  unfold turnRepack
  split <;> exact ⟨rfl, rfl, rfl⟩

theorem keeps_of_stage {count start : Nat} {bytes : ByteArray} (found : f.stage count bytes = some (start, next)) :
    next.commands = f.commands ∧ next.device = f.device ∧ next.events = f.events := by
  unfold stage at found
  split at found
  · cases found
  · cases found
    exact ⟨rfl, rfl, rfl⟩

/-- All that a flush has staged stays as it is while the flush goes on. -/
theorem Work.extends (work : Work f g) (positive : 0 < f.atlas.alignment) : g.staging.Extends f.staging := by
  cases work with
  | announce event =>
    rw [(announce_keeps f event).1]
    exact .refl _
  | upload texture placed staged => exact (staged_of_stage positive staged).grown
  | uploadPlanned running texture planned staged =>
    have grown := (staged_of_stage positive staged).grown
    rwa [← (turnRepack_keeps _ .transferTarget).1] at grown
  | _ => exact .refl _

theorem Works.extends (works : f.Works g) (positive : 0 < f.atlas.alignment) : g.staging.Extends f.staging := by
  have kept : g.staging.Extends f.staging ∧ 0 < g.atlas.alignment :=
    works.induction (motive := fun g => g.staging.Extends f.staging ∧ 0 < g.atlas.alignment) ⟨.refl _, positive⟩
      fun _ _ work before =>
        ⟨(work.extends before.2).trans before.1, work.leads.fixes.alignment ▸ before.2⟩
  exact kept.1

theorem buffers_of_createImage {d device : Device} {side layers handle : Nat}
    (created : d.createImage side layers = .ok (handle, device)) : device.buffers = d.buffers := by
  obtain ⟨rfl, rfl⟩ := Device.eq_of_createImage created
  rfl

/-- Recording writes to no buffer of the device. -/
theorem Work.buffers (work : Work f g) : g.device.buffers = f.device.buffers := by
  cases work with
  | announce event => exact congrArg Device.buffers (announce_keeps f event).2.2
  | start idle asked isTried planned created => exact buffers_of_createImage created
  | enlarge grows created => exact buffers_of_createImage created
  | upload texture placed staged => exact congrArg Device.buffers (keeps_of_stage staged).2.1
  | @uploadPlanned r id start t p next running texture planned staged =>
    have turned := (turnRepack_keeps next .transferTarget).2.2
    exact congrArg Device.buffers (turned.trans (keeps_of_stage staged).2.1)
  | _ => rfl

theorem sparesBuffers_turn (img : OwnedImage) (layout : Layout) : ∀ c ∈ (img.turn layout).2, c.SparesBuffers := by
  intro c member
  unfold OwnedImage.turn at member
  split at member
  · cases member
  · cases List.mem_singleton.mp member
    trivial

theorem sparesBuffers_copyCommands (old new : OwnedImage) : ∀ c ∈ (copyCommands old new).1, c.SparesBuffers := by
  intro c member
  simp only [copyCommands, List.mem_append, List.mem_singleton] at member
  rcases member with (((first | second) | rfl) | third) | fourth
  · exact sparesBuffers_turn _ _ c first
  · exact sparesBuffers_turn _ _ c second
  · trivial
  · exact sparesBuffers_turn _ _ c third
  · exact sparesBuffers_turn _ _ c fourth

/-- The commands of the other frame are those of the first and others that write to no buffer. -/
def AddsNoBuffer (f g : Frame) : Prop :=
  ∃ more : List Command, g.commands.toList = f.commands.toList ++ more ∧ ∀ c ∈ more, c.SparesBuffers

namespace AddsNoBuffer

theorem of_eq (same : g.commands = f.commands) : f.AddsNoBuffer g :=
  ⟨[], by rw [same, List.append_nil], fun _ member => by cases member⟩

theorem record (spares : ∀ c ∈ commands, c.SparesBuffers) : f.AddsNoBuffer (f.record commands) :=
  ⟨commands, by rw [Frame.record, Array.toList_appendList], spares⟩

theorem trans (first : f.AddsNoBuffer g) (second : g.AddsNoBuffer next) : f.AddsNoBuffer next := by
  obtain ⟨more, isMore, spares⟩ := first
  obtain ⟨later, isLater, laterSpares⟩ := second
  refine ⟨more ++ later, by rw [isLater, isMore, List.append_assoc], fun c member => ?_⟩
  rcases List.mem_append.mp member with earlier | new
  · exact spares c earlier
  · exact laterSpares c new

end AddsNoBuffer

theorem addsNoBuffer_turnLive (f : Frame) (layout : Layout) : f.AddsNoBuffer (f.turnLive layout) :=
  .record (sparesBuffers_turn f.atlas.image layout)

theorem addsNoBuffer_turnRepack (f : Frame) (layout : Layout) : f.AddsNoBuffer (f.turnRepack layout) := by
  unfold turnRepack
  split
  · exact .of_eq rfl
  · exact .record (sparesBuffers_turn _ layout)

theorem sparesBuffers_upload (img : OwnedImage) (start : Nat) (p : Placement) :
    ∀ c ∈ [uploadCommand img start p], c.SparesBuffers := by
  intro c member
  cases List.mem_singleton.mp member
  trivial

theorem Work.addsNoBuffer (work : Work f g) : f.AddsNoBuffer g := by
  cases work with
  | announce event => exact .of_eq (announce_keeps f event).2.1
  | enlarge grows created => exact .record (sparesBuffers_copyCommands _ _)
  | upload texture placed staged =>
    have turned := AddsNoBuffer.trans (.of_eq ((keeps_of_stage staged).1)) (addsNoBuffer_turnLive _ .transferTarget)
    exact turned.trans (.record (sparesBuffers_upload _ _ _))
  | uploadPlanned running texture planned staged =>
    have turned := AddsNoBuffer.trans (.of_eq ((keeps_of_stage staged).1)) (addsNoBuffer_turnRepack _ .transferTarget)
    exact turned.trans (.record (sparesBuffers_upload _ _ _))
  | _ => exact .of_eq rfl

/-- Before the table is uploaded, a change of the rows or of the image is noted, and no command writes to a buffer. -/
structure Untabled (a : Atlas) (f : Frame) : Prop where
  noted : f.atlas.tableStale = false →
    a.tableStale = false ∧ f.atlas.entries = a.entries ∧ f.atlas.image.handle = a.image.handle
  spares : ∀ c ∈ f.commands.toList, c.SparesBuffers

theorem AddsNoBuffer.spares (adds : f.AddsNoBuffer g) (spares : ∀ c ∈ f.commands.toList, c.SparesBuffers) :
    ∀ c ∈ g.commands.toList, c.SparesBuffers := by
  obtain ⟨more, isMore, others⟩ := adds
  intro c member
  rw [isMore] at member
  rcases List.mem_append.mp member with earlier | new
  · exact spares c earlier
  · exact others c new

theorem tableStale_showPlace (a : Atlas) (id : Nat) : (a.showPlace id).tableStale = true := by
  unfold showPlace
  split <;> rfl

namespace Untabled

theorem of_same (untabled : f.Untabled a) (adds : f.AddsNoBuffer g)
    (tableStale : g.atlas.tableStale = f.atlas.tableStale) (entries : g.atlas.entries = f.atlas.entries)
    (handle : g.atlas.image.handle = f.atlas.image.handle) : g.Untabled a where
  noted := by
    rw [tableStale, entries, handle]
    exact untabled.noted
  spares := adds.spares untabled.spares

theorem of_stale (untabled : f.Untabled a) (adds : f.AddsNoBuffer g) (stale : g.atlas.tableStale = true) :
    g.Untabled a where
  noted := fun fresh => by cases stale.symm.trans fresh
  spares := adds.spares untabled.spares

theorem work (untabled : f.Untabled a) (work : Work f g) : g.Untabled a := by
  have adds := work.addsNoBuffer
  cases work with
  | announce event =>
    have same := announce_atlas f event
    exact untabled.of_same adds (by rw [same]) (by rw [same]) (by rw [same])
  | enlarge grows created => exact untabled.of_stale adds rfl
  | place texture unplaced found =>
    obtain ⟨_, _, rfl⟩ := Option.map_eq_some_iff.mp found
    exact untabled.of_same adds rfl rfl rfl
  | upload texture placed staged => exact untabled.of_stale adds (tableStale_showPlace _ _)
  | uploadPlanned running texture planned staged =>
    have same := atlas_of_stage staged
    refine untabled.of_same adds ?_ ?_ ?_ <;> simp only [record, turnRepack_atlas, same]
  | _ => exact untabled.of_same adds rfl rfl rfl

theorem adoptReady (f : Frame) (none : f.commands = #[]) : f.adoptReady.Untabled f.atlas := by
  have spares : ∀ c ∈ f.adoptReady.commands.toList, c.SparesBuffers := by
    rw [f.adoptReady_keeps.2.2, none]
    intro c member
    cases member
  refine ⟨?_, spares⟩
  unfold Frame.adoptReady
  split
  · exact fun fresh => ⟨fresh, rfl, rfl⟩
  · split
    · rw [announce_atlas]
      intro fresh
      cases fresh
    · exact fun fresh => ⟨fresh, rfl, rfl⟩

end Untabled

/-- What a flush of an atlas has done to the table of the device. -/
inductive LeavesTable (a : Atlas) (f : Frame) : Prop where
  /-- It has all rows anew. -/
  | renewed : f.atlas.tableStale = false → Renews f.atlas f.staging f.commands.toList → LeavesTable a f
  /-- There was nothing to do: neither rows nor image changed. -/
  | upToDate : f.atlas.tableStale = false → a.tableStale = false → f.atlas.entries = a.entries →
      f.atlas.image.handle = a.image.handle → (∀ c ∈ f.commands.toList, c.SparesBuffers) → LeavesTable a f
  /-- There was no room left to stage the rows. -/
  | putOff : f.atlas.tableStale = true → .stagingOverflow ∈ f.events → (∀ c ∈ f.commands.toList, c.SparesBuffers) →
      LeavesTable a f

namespace LeavesTable

/-- Only for lack of room the table is put off. -/
theorem fresh (leaves : f.LeavesTable a) (roomy : .stagingOverflow ∉ f.events) : f.atlas.tableStale = false := by
  cases leaves with
  | renewed fresh _ => exact fresh
  | upToDate fresh _ _ _ _ => exact fresh
  | putOff _ announced _ => exact absurd announced roomy

/-- Commands behind the upload of the table make no difference. -/
theorem behind (leaves : f.LeavesTable a) (adds : f.AddsNoBuffer g) (fixes : Fixes f.atlas g.atlas)
    (staging : g.staging = f.staging) (events : g.events = f.events)
    (tableStale : g.atlas.tableStale = f.atlas.tableStale) (entries : g.atlas.entries = f.atlas.entries)
    (handle : g.atlas.image.handle = f.atlas.image.handle) :
    g.LeavesTable a := by
  cases leaves with
  | renewed fresh renews =>
    obtain ⟨more, isMore, spares⟩ := adds
    refine .renewed (tableStale.trans fresh) ?_
    rw [isMore, staging]
    refine Renews.append ?_ spares
    rw [Renews, fixes.tableBuffer, fixes.config, entries]
    exact renews
  | upToDate fresh wasFresh sameEntries sameHandle spares =>
    exact .upToDate (tableStale.trans fresh) wasFresh (entries.trans sameEntries) (handle.trans sameHandle)
      (adds.spares spares)
  | putOff stale announced spares => exact .putOff (tableStale.trans stale) (events ▸ announced) (adds.spares spares)

end LeavesTable

theorem uploadTable_extends (f : Frame) (positive : 0 < f.atlas.alignment) :
    f.uploadTable.staging.Extends f.staging := by
  unfold Frame.uploadTable
  split
  · simp only
    split
    · rw [(announce_keeps _ _).1]
      exact .refl _
    · rename_i start next found
      exact (staged_of_stage positive found).grown
  · exact .refl _

theorem finishRepack_keeps (f : Frame) (written : Bool) :
    (f.finishRepack written).staging = f.staging ∧ (f.finishRepack written).device = f.device := by
  cases written with
  | true => exact ⟨(turnRepack_keeps f .shaderRead).1, (turnRepack_keeps f .shaderRead).2.2⟩
  | false => exact ⟨rfl, rfl⟩

theorem uploadTable_device (f : Frame) : f.uploadTable.device = f.device := by
  unfold Frame.uploadTable
  split
  · simp only
    split
    · exact (announce_keeps f _).2.2
    · rename_i start next found
      exact (keeps_of_stage found).2.1
  · rfl

theorem Untabled.uploadTable (untabled : f.Untabled a) (positive : 0 < f.atlas.alignment)
    (sized : f.atlas.entries.size = f.atlas.config.maxTextureId) : f.uploadTable.LeavesTable a := by
  unfold Frame.uploadTable
  split
  · rename_i stale
    simp only
    split
    · refine .putOff ?_ (mem_announce _ _) ?_
      · rw [announce_atlas, stale]
      · rw [(announce_keeps _ _).2.1]
        exact untabled.spares
    · rename_i start next found
      have staged := staged_of_stage positive found
      have tableSize : (Entry.tableBytes f.atlas.entries).size = f.atlas.config.tableBytes := by
        rw [Entry.tableBytes_size, sized, Config.tableBytes]
      refine .renewed rfl ⟨start, next.commands.toList, [.bufferBarrier next.atlas.tableBuffer], ?_, ?_, ?_⟩
      · simp only [record, modifyAtlas, Array.toList_appendList, staged.atlas]
      · intro c member
        rcases List.mem_append.mp member with earlier | last
        · rw [staged.commands] at earlier
          exact untabled.spares c earlier
        · cases List.mem_singleton.mp last
          trivial
      · simp only [record, modifyAtlas, staged.atlas]
        exact ⟨staged.used, staged.inside, staged.holds tableSize⟩
  · rename_i fresh
    obtain ⟨wasFresh, entries, handle⟩ := untabled.noted (Bool.eq_false_iff.mpr fresh)
    exact .upToDate (Bool.eq_false_iff.mpr fresh) wasFresh entries handle untabled.spares

theorem LeavesTable.turnLive (leaves : f.LeavesTable a) (layout : Layout) : (f.turnLive layout).LeavesTable a :=
  leaves.behind (addsNoBuffer_turnLive f layout) ⟨rfl, rfl, rfl, rfl⟩ rfl rfl rfl rfl (OwnedImage.turn_handle _ _)

theorem LeavesTable.turnRepack (leaves : f.LeavesTable a) (layout : Layout) : (f.turnRepack layout).LeavesTable a := by
  refine leaves.behind (addsNoBuffer_turnRepack f layout) (leads_turnRepack f layout).fixes
    (turnRepack_keeps f layout).1 (turnRepack_keeps f layout).2.1 ?_ ?_ ?_ <;> rw [turnRepack_atlas]

theorem LeavesTable.finishRepack (leaves : f.LeavesTable a) (written : Bool) :
    (f.finishRepack written).LeavesTable a := by
  have turned : (if written then f.turnRepack .shaderRead else f).LeavesTable a := by
    split
    · exact leaves.turnRepack .shaderRead
    · exact leaves
  exact turned.behind (.of_eq rfl) ⟨rfl, rfl, rfl, rfl⟩ rfl rfl rfl rfl rfl

end Frame

/-- What a flush does to the table: it copies all rows, has nothing to do, or announces that it had no room. -/
theorem leavesTable_flush {accepted : Nat → Option PixelBuffer}
    (registry : Registry accepted a.config.maxTextureId a.slots a.entries a.freeIds a.nextId)
    (positive : 0 < a.alignment) (device : Device) (staging : Staging) :
    (a.flush device staging).LeavesTable a ∧ (a.flush device staging).staging.Extends staging := by
  let start : Frame := ⟨a, device, staging, #[], []⟩
  obtain ⟨g, written, works, isFlush⟩ := Frame.works_flush start
  have adopted : Fixes a start.adoptReady.atlas := (Frame.leads_adoptReady start).fixes
  have fixes : Fixes a g.atlas := adopted.trans works.leads.fixes
  have untabled : g.Untabled a :=
    works.induction (Frame.Untabled.adoptReady start rfl) fun _ _ work before => before.work work
  have positiveAt : 0 < g.atlas.alignment := fixes.alignment ▸ positive
  have sized : g.atlas.entries.size = g.atlas.config.maxTextureId := by
    rw [fixes.entries_size, fixes.config, registry.entries_size]
  have grown : g.staging.Extends staging := by
    have worked := works.extends (adopted.alignment ▸ positive)
    rwa [start.adoptReady_keeps.2.1] at worked
  have leaves := untabled.uploadTable positiveAt sized
  rw [show a.flush device staging = start.flush from rfl, isFlush]
  refine ⟨(leaves.turnLive .shaderRead).finishRepack written, ?_⟩
  rw [(Frame.finishRepack_keeps _ _).1]
  exact (Frame.uploadTable_extends g positiveAt).trans grown

theorem buffers_flush (a : Atlas) (device : Device) (staging : Staging) :
    (a.flush device staging).device.buffers = device.buffers := by
  let start : Frame := ⟨a, device, staging, #[], []⟩
  obtain ⟨g, written, works, isFlush⟩ := Frame.works_flush start
  have worked : g.device.buffers = device.buffers :=
    works.induction (motive := fun g => g.device.buffers = device.buffers)
      (congrArg Device.buffers start.adoptReady_keeps.1) fun _ _ work before => work.buffers.trans before
  rw [show a.flush device staging = start.flush from rfl, isFlush, (Frame.finishRepack_keeps _ _).2]
  exact (congrArg Device.buffers g.uploadTable_device).trans worked

end TextureLoom.Atlas
