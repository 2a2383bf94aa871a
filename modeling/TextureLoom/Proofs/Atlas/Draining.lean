import TextureLoom.Proofs.Atlas.Queueing

set_option autoImplicit false

namespace TextureLoom.Atlas

open Bytes

variable {accepted : Nat → Option PixelBuffer} {a b c : Atlas} {id other handle start : Nat} {t : Texture}
  {p : Placement}

/-- Slots, pending ids and a running repack of one atlas are those of the other. -/
structure Retains (a b : Atlas) : Prop where
  slots : b.slots = a.slots
  pending : b.pending = a.pending
  repack : b.repack = a.repack

namespace Retains

theorem refl (a : Atlas) : Retains a a := ⟨rfl, rfl, rfl⟩

theorem trans (first : Retains a b) (second : Retains b c) : Retains a c :=
  ⟨second.slots.trans first.slots, second.pending.trans first.pending, second.repack.trans first.repack⟩

theorem slotOf (retains : Retains a b) (id : Nat) : b.slot id = a.slot id := by
  rw [slot, slot, retains.slots]

theorem isPending (retains : Retains a b) (id : Nat) : b.isPending id = a.isPending id := by
  rw [Atlas.isPending, Atlas.isPending, retains.pending]

theorem modifySlot (retains : Retains a b) (id : Nat) (f : Slot → Slot) :
    Retains (a.modifySlot id f) (b.modifySlot id f) :=
  ⟨by rw [Atlas.modifySlot, Atlas.modifySlot, retains.slots], retains.pending, retains.repack⟩

end Retains

namespace Frame

variable {f g next : Frame}

/-- What one frame has recorded, announced and staged the other has too. -/
structure Onward (f g : Frame) : Prop where
  commands : ∀ c ∈ f.commands.toList, c ∈ g.commands.toList
  events : ∀ e ∈ f.events, e ∈ g.events
  grown : g.staging.Extends f.staging
  fixes : Fixes f.atlas g.atlas

theorem events_announce {event e : Event} (known : e ∈ f.events) : e ∈ (f.announce event).events := by
  unfold announce
  split
  · exact known
  · exact List.mem_append_left _ known

/-- What was announced once in a flush stays announced. -/
theorem Work.events (work : Work f g) : ∀ e ∈ f.events, e ∈ g.events := by
  intro e known
  cases work with
  | announce event => exact events_announce known
  | upload texture placed staged =>
    rw [← (keeps_of_stage staged).2.2] at known
    exact known
  | uploadPlanned running texture planned staged =>
    rw [← (keeps_of_stage staged).2.2, ← (turnRepack_keeps _ .transferTarget).2.1] at known
    exact known
  | _ => exact known

namespace Onward

theorem trans (first : f.Onward g) (second : g.Onward next) : f.Onward next :=
  ⟨fun c member => second.commands c (first.commands c member),
    fun e known => second.events e (first.events e known), second.grown.trans first.grown,
    first.fixes.trans second.fixes⟩

theorem of_works (works : f.Works g) (positive : 0 < f.atlas.alignment) : f.Onward g where
  commands := by
    refine works.induction (motive := fun g => ∀ c ∈ f.commands.toList, c ∈ g.commands.toList)
      (fun _ member => member) fun g next work before c member => ?_
    obtain ⟨more, isMore, _⟩ := work.addsNoBuffer
    rw [isMore]
    exact List.mem_append_left more (before c member)
  events := works.induction (motive := fun g => ∀ e ∈ f.events, e ∈ g.events) (fun _ known => known)
    fun _ _ work before e known => work.events e (before e known)
  grown := works.extends positive
  fixes := works.leads.fixes

end Onward

theorem mem_record {c : Command} {commands : List Command} (member : c ∈ f.commands.toList) :
    c ∈ (f.record commands).commands.toList := by
  rw [record, Array.toList_appendList]
  exact List.mem_append_left commands member

theorem mem_record_self (f : Frame) (c : Command) : c ∈ (f.record [c]).commands.toList := by
  rw [record, Array.toList_appendList]
  exact List.mem_append_right _ List.mem_cons_self

theorem onward_turnLive (f : Frame) (layout : Layout) : f.Onward (f.turnLive layout) :=
  ⟨fun _ member => mem_record member, fun _ known => known, .refl _, (leads_turnLive f layout).fixes⟩

theorem onward_turnRepack (f : Frame) (layout : Layout) : f.Onward (f.turnRepack layout) where
  commands := by
    intro c member
    unfold turnRepack
    split
    · exact member
    · exact mem_record member
  events := by
    intro e known
    rwa [(turnRepack_keeps f layout).2.1]
  grown := by
    rw [(turnRepack_keeps f layout).1]
    exact .refl _
  fixes := (leads_turnRepack f layout).fixes

theorem onward_uploadTable (f : Frame) (positive : 0 < f.atlas.alignment) : f.Onward f.uploadTable where
  commands := by
    intro c member
    unfold uploadTable
    split
    · dsimp only
      split
      · rw [(announce_keeps f _).2.1]
        exact member
      · rename_i found
        apply mem_record
        rw [(keeps_of_stage found).1]
        exact member
    · exact member
  events := by
    intro e known
    unfold uploadTable
    split
    · dsimp only
      split
      · exact events_announce known
      · rename_i found
        rw [← (keeps_of_stage found).2.2] at known
        exact known
    · exact known
  grown := uploadTable_extends f positive
  fixes := (leads_uploadTable f).fixes

theorem onward_finishRepack (f : Frame) (written : Bool) : f.Onward (f.finishRepack written) := by
  cases written with
  | true =>
    obtain ⟨commands, events, grown, _⟩ := onward_turnRepack f .shaderRead
    exact ⟨commands, events, grown, (leads_finishRepack f true).fixes⟩
  | false => exact ⟨fun _ member => member, fun _ known => known, .refl _, (leads_finishRepack f false).fixes⟩

/-- Uploading the table and readying the images. -/
theorem onward_closing (f : Frame) (written : Bool) (positive : 0 < f.atlas.alignment) :
    f.Onward (((f.uploadTable).turnLive .shaderRead).finishRepack written) :=
  ((onward_uploadTable f positive).trans (onward_turnLive _ .shaderRead)).trans (onward_finishRepack _ written)

/-- The upload of a texture to a place of an image was recorded. The staged bytes are in use and, if the place has the
size of the texture, those of the texture with its padding. -/
def Records (f : Frame) (handle : Nat) (t : Texture) (p : Placement) : Prop :=
  ∃ start, .copyToImage start handle p.layer p.x p.y p.width p.height ∈ f.commands.toList ∧
    start + p.width * p.height * 4 ≤ f.staging.used ∧
    (p.Fits t f.atlas.config.padding → ∀ k < p.width * p.height * 4,
      byteAt f.staging.bytes (start + k) = byteAt (t.padded f.atlas.config.padding) k)

theorem Records.onward (records : f.Records handle t p) (onward : f.Onward g) : g.Records handle t p := by
  obtain ⟨start, member, inUse, staged⟩ := records
  refine ⟨start, onward.commands _ member, Nat.le_trans inUse onward.grown.used, fun fits k bound => ?_⟩
  have inUseAt : start + k < f.staging.used := by omega
  rw [onward.fixes.config] at fits ⊢
  rw [onward.grown.bytes _ inUseAt, staged fits k bound]

/-- A texture that was staged for a place, once the copy is recorded. -/
theorem Staged.records (staged : f.Staged next (p.width * p.height * 4) start (t.padded f.atlas.config.padding))
    (g : Frame) (img : OwnedImage) (member : uploadCommand img start p ∈ g.commands.toList)
    (staging : g.staging = next.staging) (config : g.atlas.config = f.atlas.config) :
    g.Records img.handle t p := by
  refine ⟨start, member, staging ▸ staged.used, fun fits => ?_⟩
  rw [config] at fits ⊢
  rw [staging]
  apply staged.holds
  rw [Texture.padded_size, fits.width, fits.height]

theorem retains_grow (f : Frame) (capacity : Capacity) : Retains f.atlas (f.grow capacity).2.atlas := by
  simp only [grow]
  split
  · rw [announce_atlas]
    exact .refl _
  · dsimp only [modifyAtlas, record]
    rw [enlarged_eq]
    exact ⟨rfl, rfl, rfl⟩

theorem retains_growRequested (f : Frame) : Retains f.atlas f.growRequested.atlas := by
  simp only [growRequested]
  split
  · exact ⟨rfl, rfl, rfl⟩
  · have grown := retains_grow f ⟨f.atlas.side, f.atlas.layerRequest⟩
    generalize f.grow ⟨f.atlas.side, f.atlas.layerRequest⟩ = result at grown ⊢
    obtain ⟨_ | _, g⟩ := result
    · exact grown
    · exact ⟨grown.slots, grown.pending, grown.repack⟩

/-- An id has a place, or nothing was found for it. -/
def Situated (id : Nat) (a : Atlas) : Bool × Frame → Prop
  | (true, g) => ∃ p, Retains (a.modifySlot id fun s => { s with place := some p }) g.atlas
  | (false, g) => Retains a g.atlas

theorem situated_of_place? {width height : Nat} (found : a.place? id width height = some b) :
    ∃ p, Retains (a.modifySlot id fun s => { s with place := some p }) b := by
  obtain ⟨⟨p, bins⟩, _, rfl⟩ := Option.map_eq_some_iff.mp found
  exact ⟨p, rfl, rfl, rfl⟩

theorem situated_growUntilPlaced (width height : Nat) (steps : List Capacity) (retains : Retains a f.atlas) :
    Situated id a (growUntilPlaced id width height steps f) := by
  induction steps generalizing f with
  | nil => exact retains
  | cons capacity rest ih =>
    have grown := retains.trans (retains_grow f capacity)
    rw [growUntilPlaced]
    generalize f.grow capacity = result at grown
    obtain ⟨_ | _, g⟩ := result
    · exact grown
    · dsimp only at grown ⊢
      split
      · rename_i b found
        obtain ⟨p, placed⟩ := situated_of_place? found
        exact ⟨p, (grown.modifySlot id _).trans placed⟩
      · exact ih grown

theorem situated_place (f : Frame) (id width height : Nat) : Situated id f.atlas (f.place id width height) := by
  unfold place
  split
  · rename_i b found
    exact situated_of_place? found
  · exact situated_growUntilPlaced width height _ (.refl f.atlas)

/-- Work of a flush that leaves what an id has as it is, and a running repack. -/
structure Spares (id : Nat) (f g : Frame) : Prop where
  works : f.Works g
  slot : g.atlas.slot id = f.atlas.slot id
  waits : g.atlas.isPending id = f.atlas.isPending id
  repack : g.atlas.repack = f.atlas.repack

namespace Spares

theorem refl (f : Frame) : f.Spares id f := ⟨.refl f, rfl, rfl, rfl⟩

theorem trans (first : f.Spares id g) (second : g.Spares id next) : f.Spares id next :=
  ⟨first.works.trans second.works, second.slot.trans first.slot, second.waits.trans first.waits,
    second.repack.trans first.repack⟩

theorem of_retains (works : f.Works g) (retains : Retains f.atlas g.atlas) : f.Spares id g :=
  ⟨works, retains.slotOf id, retains.isPending id, retains.repack⟩

end Spares

/-- Only an id with data and without a place is looked after. -/
theorem placeWaiting_cases (short : Bool × Frame) (id : Nat) :
    (((short.2.atlas.slot id).texture = none ∨ (short.2.atlas.slot id).place.isSome) ∧
      placeWaiting short id = short) ∨
    ∃ t, (short.2.atlas.slot id).texture = some t ∧ (short.2.atlas.slot id).place = none ∧ placeWaiting short id =
      match short.2.place id (t.width + 2 * short.2.atlas.config.padding)
        (t.height + 2 * short.2.atlas.config.padding) with
      | (true, g) => (short.1, g)
      | (false, g) => (true, g.modifyAtlas fun a => { a with pending := a.pending.push id }) := by
  obtain ⟨isShort, f⟩ := short
  simp only [placeWaiting]
  split
  · rename_i t texture unplaced
    exact Or.inr ⟨t, texture, unplaced, rfl⟩
  · rename_i idle
    refine Or.inl ⟨?_, rfl⟩
    rcases texture : (f.atlas.slot id).texture with _ | t
    · exact Or.inl rfl
    · refine Or.inr (Option.isSome_iff_ne_none.mpr fun unplaced => ?_)
      exact idle t texture unplaced

theorem spares_placeWaiting (short : Bool × Frame) (distinct : other ≠ id) :
    short.2.Spares id (placeWaiting short other).2 := by
  have works := works_placeWaiting short other
  rcases placeWaiting_cases short other with ⟨_, same⟩ | ⟨t, _, _, isPlacing⟩
  · rw [same]
    exact .refl short.2
  · rw [isPlacing] at works ⊢
    have situated := situated_place short.2 other (t.width + 2 * short.2.atlas.config.padding)
      (t.height + 2 * short.2.atlas.config.padding)
    generalize short.2.place other _ _ = result at situated works
    obtain ⟨_ | _, g⟩ := result
    · refine ⟨works, situated.slotOf id, ?_, situated.repack⟩
      rw [← situated.isPending id]
      exact Queue.contains_push_of_ne _ distinct.symm
    · obtain ⟨p, placed⟩ := situated
      refine ⟨works, ?_, placed.isPending id, placed.repack⟩
      rw [placed.slotOf, slot_modifySlot, if_neg fun both => distinct both.1.symm]

/-- What looking for a place does to the id itself. -/
theorem placeWaiting_self {short : Bool × Frame} (queued : Queued accepted short.2.atlas)
    (texture : (short.2.atlas.slot id).texture = some t) :
    (∃ p, (placeWaiting short id).2.atlas.slot id = { short.2.atlas.slot id with place := some p } ∧
      (placeWaiting short id).2.atlas.isPending id = short.2.atlas.isPending id) ∨
    (short.2.atlas.slot id).place = none ∧ (placeWaiting short id).2.atlas.slot id = short.2.atlas.slot id ∧
      (placeWaiting short id).2.atlas.isPending id = true := by
  obtain ⟨registered, bound⟩ := queued.lt_of_texture texture
  rcases placeWaiting_cases short id with ⟨idle, same⟩ | ⟨u, _, unplaced, isPlacing⟩
  · have placed : (short.2.atlas.slot id).place.isSome :=
      idle.resolve_left fun none => by cases none.symm.trans texture
    obtain ⟨p, isPlaced⟩ := Option.isSome_iff_exists.mp placed
    rw [same]
    refine Or.inl ⟨p, ?_, rfl⟩
    rw [← isPlaced]
  · rw [isPlacing]
    have situated := situated_place short.2 id (u.width + 2 * short.2.atlas.config.padding)
      (u.height + 2 * short.2.atlas.config.padding)
    generalize short.2.place id _ _ = result at situated
    obtain ⟨_ | _, g⟩ := result
    · refine Or.inr ⟨unplaced, situated.slotOf id, ?_⟩
      refine Queue.Sound.contains_push_self ?_ bound
      rw [situated.pending]
      exact queued.pending
    · obtain ⟨p, placed⟩ := situated
      refine Or.inl ⟨p, ?_, placed.isPending id⟩
      rw [placed.slotOf, slot_modifySlot_self (lt_of_isRegistered registered)]

/-- Only an id with data and a place is uploaded, unless the lack of room is announced. -/
theorem uploadWaiting_cases (f : Frame) (id : Nat) :
    (((f.atlas.slot id).texture = none ∨ (f.atlas.slot id).place = none) ∧ f.uploadWaiting id = f) ∨
    ∃ t p, (f.atlas.slot id).texture = some t ∧ (f.atlas.slot id).place = some p ∧
      (f.uploadWaiting id = (f.announce .stagingOverflow).modifyAtlas (fun a =>
          { a with pending := a.pending.push id }) ∨
        ∃ start next, f.stage (p.width * p.height * 4) (t.padded f.atlas.config.padding) = some (start, next) ∧
          f.uploadWaiting id = ((next.turnLive .transferTarget).record
            [uploadCommand (next.turnLive .transferTarget).atlas.image start p]).modifyAtlas fun a =>
              (a.modifySlot id Slot.uploaded).showPlace id) := by
  unfold uploadWaiting
  split
  · rename_i t p texture placed
    refine Or.inr ⟨t, p, texture, placed, ?_⟩
    rcases stageTexture_eq f t p with full | ⟨start, next, fits, staged⟩
    · rw [full]
      exact Or.inl rfl
    · rw [fits]
      exact Or.inr ⟨start, next, staged, rfl⟩
  · rename_i idle
    refine Or.inl ⟨?_, rfl⟩
    rcases texture : (f.atlas.slot id).texture with _ | t
    · exact Or.inl rfl
    · rcases placed : (f.atlas.slot id).place with _ | p
      · exact Or.inr rfl
      · exact absurd placed (idle t p texture)

/-- An upload that was staged changes the slot and the row of its id, and turns the image. -/
theorem upload_keeps (staged : next.atlas = f.atlas) (id other : Nat) :
    let uploaded := ((next.turnLive .transferTarget).atlas.modifySlot id Slot.uploaded).showPlace id
    (other ≠ id → uploaded.slot other = f.atlas.slot other) ∧ uploaded.isPending other = f.atlas.isPending other ∧
      uploaded.repack = f.atlas.repack ∧ uploaded.image.handle = f.atlas.image.handle ∧
      uploaded.config = f.atlas.config := by
  intro uploaded
  obtain ⟨pending, repack⟩ := queues_showPlace ((next.turnLive .transferTarget).atlas.modifySlot id Slot.uploaded) id
  have edits : Edits id (next.turnLive .transferTarget).atlas uploaded :=
    (edits_modifySlot _ id Slot.uploaded).trans (edits_showPlace _ id)
  have turned : (next.turnLive .transferTarget).atlas = { f.atlas with
      image := (f.atlas.image.turn .transferTarget).1 } := by
    rw [← staged]
    rfl
  refine ⟨fun distinct => ?_, ?_, ?_, ?_, ?_⟩
  · rw [edits.slotOf other distinct, turned]
    rfl
  · rw [Atlas.isPending, pending, turned]
    rfl
  · rw [repack, turned]
    rfl
  · rw [edits.image, turned, OwnedImage.turn_handle]
  · rw [edits.config, turned]

theorem spares_uploadWaiting (f : Frame) (distinct : other ≠ id) : f.Spares id (f.uploadWaiting other) ∧
    (f.uploadWaiting other).atlas.image.handle = f.atlas.image.handle := by
  have works := works_uploadWaiting f other
  rcases uploadWaiting_cases f other with ⟨_, same⟩ | ⟨t, p, _, _, full | ⟨start, next, staged, isUploaded⟩⟩
  · rw [same]
    exact ⟨.refl f, rfl⟩
  · rw [full] at works ⊢
    have same := announce_atlas f .stagingOverflow
    simp only [modifyAtlas, same] at works ⊢
    exact ⟨⟨works, rfl, Queue.contains_push_of_ne _ distinct.symm, rfl⟩, trivial⟩
  · rw [isUploaded] at works ⊢
    obtain ⟨slotOf, waits, repack, handle, _⟩ := upload_keeps (atlas_of_stage staged) other id
    exact ⟨⟨works, slotOf distinct.symm, waits, repack⟩, handle⟩

/-- What trying to upload it does to the id itself. -/
theorem uploadWaiting_self (queued : Queued accepted f.atlas) (texture : (f.atlas.slot id).texture = some t)
    (placed : (f.atlas.slot id).place = some p) :
    (f.uploadWaiting id).atlas.slot id = f.atlas.slot id ∧ (f.uploadWaiting id).atlas.isPending id = true ∧
      .stagingOverflow ∈ (f.uploadWaiting id).events ∨
    (f.uploadWaiting id).atlas.slot id = (f.atlas.slot id).uploaded ∧
      (f.uploadWaiting id).atlas.isPending id = f.atlas.isPending id ∧
      (f.uploadWaiting id).Records (f.uploadWaiting id).atlas.image.handle t p := by
  obtain ⟨registered, bound⟩ := queued.lt_of_texture texture
  rcases uploadWaiting_cases f id with ⟨idle, _⟩ | ⟨u, q, isTexture, isPlaced, tried⟩
  · rcases idle with none | unplaced
    · cases none.symm.trans texture
    · cases unplaced.symm.trans placed
  · cases texture.symm.trans isTexture
    cases placed.symm.trans isPlaced
    rcases tried with full | ⟨start, next, staged, isUploaded⟩
    · rw [full]
      have announced := mem_announce f .stagingOverflow
      simp only [modifyAtlas, announce_atlas]
      exact Or.inl ⟨rfl, queued.pending.contains_push_self bound, announced⟩
    · have range := staged_of_stage queued.positive staged
      obtain ⟨_, waits, _, handle, config⟩ := upload_keeps range.atlas id id
      rw [isUploaded]
      refine Or.inr ⟨?_, waits, ?_⟩
      · have inside : id < (next.turnLive .transferTarget).atlas.slots.size := by
          have slots : (next.turnLive .transferTarget).atlas.slots = f.atlas.slots := by
            rw [← range.atlas]
            rfl
          rw [slots]
          exact lt_of_isRegistered registered
        refine (slot_showPlace _ id id).trans ((slot_modifySlot_self inside Slot.uploaded).trans ?_)
        rw [← range.atlas]
        rfl
      · have turned : (next.turnLive .transferTarget).atlas.image.handle = f.atlas.image.handle := by
          rw [← range.atlas]
          exact OwnedImage.turn_handle _ _
        refine handle.trans turned.symm ▸ range.records _ (next.turnLive .transferTarget).atlas.image ?_ rfl config
        exact mem_record_self _ _

/-- What becomes of an id with data that waits: it waits on, which is announced if it had its place before, or it is
uploaded to its place in the live image. -/
inductive Outcome (id : Nat) (t : Texture) (s : Slot) (g : Frame) : Prop where
  | putOff {place : Option Placement} : g.atlas.slot id = { s with place } →
      (s.place.isSome → place.isSome ∧ .stagingOverflow ∈ g.events) → g.atlas.isPending id = true → Outcome id t s g
  | uploaded {p : Placement} : g.atlas.slot id = { s with place := some p }.uploaded →
      g.atlas.isPending id = false → g.Records g.atlas.image.handle t p → Outcome id t s g

/-- What is recorded later, for others or into other images, makes no difference. -/
theorem Outcome.onward {s : Slot} (outcome : Outcome id t s f) (onward : f.Onward g)
    (slot : g.atlas.slot id = f.atlas.slot id) (waits : g.atlas.isPending id = f.atlas.isPending id)
    (handle : g.atlas.image.handle = f.atlas.image.handle) : Outcome id t s g := by
  cases outcome with
  | putOff isSlot announced isPending =>
    refine .putOff (slot.trans isSlot) (fun placed => ?_) (waits.trans isPending)
    exact ⟨(announced placed).1, onward.events _ (announced placed).2⟩
  | uploaded isSlot isPending records =>
    refine .uploaded (slot.trans isSlot) (waits.trans isPending) ?_
    rw [handle]
    exact records.onward onward

variable {ids : List Nat}

theorem spares_placed (f : Frame) (ids : List Nat) :
    (ids.foldl placeWaiting (false, f)).2.Spares id (f.placeAllWaiting ids) := by
  unfold placeAllWaiting
  generalize ids.foldl placeWaiting (false, f) = result
  obtain ⟨_ | _, g⟩ := result
  · exact .refl g
  · refine .of_retains (.single (.announce _)) ?_
    rw [announce_atlas]
    exact .refl g.atlas

theorem spares_placing (f : Frame) (outside : id ∉ ids) : f.Spares id (ids.foldl placeWaiting (false, f)).2 :=
  foldl_others (fun x y : Bool × Frame => x.2.Spares id y.2) (fun _ => .refl _)
    (fun _ _ _ first second => first.trans second) (fun x _ distinct => spares_placeWaiting x distinct) outside
    (false, f)

/-- Placing and uploading others. -/
theorem spares_waiting (f : Frame) (outside : id ∉ ids) :
    f.Spares id (ids.foldl uploadWaiting (f.placeAllWaiting ids)) := by
  have placed : f.Spares id (ids.foldl placeWaiting (false, f)).2 := spares_placing f outside
  have uploaded : (f.placeAllWaiting ids).Spares id (ids.foldl uploadWaiting (f.placeAllWaiting ids)) :=
    foldl_others (Spares id) (fun _ => .refl _) (fun _ _ _ first second => first.trans second)
      (fun x _ distinct => (spares_uploadWaiting x distinct).1) outside _
  exact (placed.trans (spares_placed f ids)).trans uploaded

/-- Placing and uploading leaves a running repack alone. -/
theorem repack_waiting (f : Frame) (ids : List Nat) :
    (ids.foldl uploadWaiting (f.placeAllWaiting ids)).atlas.repack = f.atlas.repack := by
  have others : ∀ id : Nat, id ≠ id + 1 := fun id => Nat.ne_of_lt (Nat.lt_succ_self id)
  have placed : (ids.foldl placeWaiting (false, f)).2.atlas.repack = f.atlas.repack :=
    List.foldlRecOn (motive := fun short => short.2.atlas.repack = f.atlas.repack) ids placeWaiting rfl
      fun short same id _ => (spares_placeWaiting short (others id)).repack.trans same
  have announced : (ids.foldl placeWaiting (false, f)).2.Spares 0 (f.placeAllWaiting ids) := spares_placed f ids
  exact List.foldlRecOn (motive := fun g => g.atlas.repack = f.atlas.repack) ids uploadWaiting
    (announced.repack.trans placed) fun g same id _ => (spares_uploadWaiting g (others id)).1.repack.trans same

/-- Once the waiting ids are gone through, one of them with data has a place or waits. -/
theorem placed_waiting (queued : Queued accepted f.atlas) (distinct : ids.Nodup) (member : id ∈ ids)
    (texture : (f.atlas.slot id).texture = some t) :
    (∃ p, (f.placeAllWaiting ids).atlas.slot id = { f.atlas.slot id with place := some p } ∧
      (f.placeAllWaiting ids).atlas.isPending id = f.atlas.isPending id) ∨
    (f.atlas.slot id).place = none ∧ (f.placeAllWaiting ids).atlas.slot id = f.atlas.slot id ∧
      (f.placeAllWaiting ids).atlas.isPending id = true := by
  obtain ⟨x, before, after⟩ := foldl_at (fun x y : Bool × Frame => x.2.Spares id y.2) (fun _ => .refl _)
    (fun _ _ _ first second => first.trans second) (fun x _ distinct => spares_placeWaiting x distinct) distinct member
    (false, f)
  have last := after.trans (spares_placed f ids)
  have textureAt : (x.2.atlas.slot id).texture = some t := by rw [before.slot, texture]
  rcases placeWaiting_self (queued.leads before.works.leads) textureAt with ⟨p, slot, waits⟩ | ⟨unplaced, slot, waits⟩
  · refine Or.inl ⟨p, ?_, ?_⟩
    · rw [last.slot, slot, before.slot]
    · rw [last.waits, waits, before.waits]
  · refine Or.inr ⟨?_, ?_, ?_⟩
    · rw [← unplaced, before.slot]
    · rw [last.slot, slot, before.slot]
    · rw [last.waits, waits]

theorem outcome_waiting (queued : Queued accepted f.atlas) (distinct : ids.Nodup) (member : id ∈ ids)
    (texture : (f.atlas.slot id).texture = some t) (taken : f.atlas.isPending id = false) :
    Outcome id t (f.atlas.slot id) (ids.foldl uploadWaiting (f.placeAllWaiting ids)) := by
  obtain ⟨g, ⟨before, _⟩, after, handle⟩ := foldl_at
    (fun x y : Frame => x.Spares id y ∧ y.atlas.image.handle = x.atlas.image.handle)
    (fun x => ⟨.refl x, rfl⟩) (fun _ _ _ first second => ⟨first.1.trans second.1, second.2.trans first.2⟩)
    (fun x _ distinct => spares_uploadWaiting x distinct) distinct member (f.placeAllWaiting ids)
  have queuedAt : Queued accepted g.atlas :=
    queued.leads ((works_placeAllWaiting f ids).trans before.works).leads
  have positive : 0 < (g.uploadWaiting id).atlas.alignment := (queuedAt.leads (works_uploadWaiting g id).leads).positive
  refine Outcome.onward (f := g.uploadWaiting id) ?_ (.of_works after.works positive) after.slot after.waits handle
  rcases placed_waiting queued distinct member texture with ⟨p, slot, waits⟩ | ⟨unplaced, slot, waits⟩
  · rw [← before.slot] at slot
    have textureAt : (g.atlas.slot id).texture = some t := by rw [slot, texture]
    have placedAt : (g.atlas.slot id).place = some p := by rw [slot]
    rcases uploadWaiting_self queuedAt textureAt placedAt with ⟨same, isPending, announced⟩ |
      ⟨isSlot, isPending, records⟩
    · exact .putOff (same.trans slot) (fun _ => ⟨rfl, announced⟩) isPending
    · refine .uploaded (p := p) ?_ ?_ records
      · rw [isSlot, slot]
      · rw [isPending, before.waits, waits, taken]
  · -- Without a place there is nothing to upload.
    rw [← before.slot] at slot
    have idle : g.uploadWaiting id = g := by
      rcases uploadWaiting_cases g id with ⟨_, same⟩ | ⟨_, p, _, placed, _⟩
      · exact same
      · rw [slot, unplaced] at placed
        cases placed
    rw [idle]
    refine .putOff slot (fun placed => ?_) (before.waits.trans waits)
    rw [unplaced] at placed
    cases placed

end Frame

end TextureLoom.Atlas
