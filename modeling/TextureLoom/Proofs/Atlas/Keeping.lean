import TextureLoom.Proofs.Atlas.Fitting

set_option autoImplicit false

namespace TextureLoom.Atlas.Frame

open Bytes

variable {accepted : Nat → Option PixelBuffer} {a : Atlas} {id : Nat} {t : Texture} {p : Placement} {f next : Frame}
  {start : Nat}

/-- What recording a flush of an atlas keeps up to some point, and what the copies recorded so far are. -/
structure Keeps (accepted : Nat → Option PixelBuffer) (a : Atlas) (f : Frame) : Prop where
  atlas : Atlas.Keeps accepted a f.atlas
  positive : 0 < a.alignment
  copies : a.Fitted → ∀ c ∈ f.commands.toList, c.CopiesTexture a f.staging

theorem copiesTexture_turn {staging : Staging} (img : OwnedImage) (layout : Layout) :
    ∀ c ∈ (img.turn layout).2, c.CopiesTexture a staging := by
  intro c member
  unfold OwnedImage.turn at member
  split at member
  · cases member
  · cases List.mem_singleton.mp member
    trivial

namespace Keeps

/-- Nothing but the atlas and the device differ. -/
theorem withAtlas (keeps : f.Keeps accepted a) (staging : next.staging = f.staging)
    (commands : next.commands = f.commands) (atlas : Atlas.Keeps accepted a next.atlas) : next.Keeps accepted a where
  atlas := atlas
  positive := keeps.positive
  copies := by
    rw [staging, commands]
    exact keeps.copies

theorem record (keeps : f.Keeps accepted a) {commands : List Command}
    (copies : a.Fitted → ∀ c ∈ commands, c.CopiesTexture a f.staging) : (f.record commands).Keeps accepted a where
  atlas := keeps.atlas
  positive := keeps.positive
  copies := by
    intro fitted c member
    simp only [Frame.record, Array.toList_appendList, List.mem_append] at member
    rcases member with earlier | new
    · exact keeps.copies fitted c earlier
    · exact copies fitted c new

theorem announce (keeps : f.Keeps accepted a) (event : Event) : (f.announce event).Keeps accepted a := by
  unfold Frame.announce
  split
  · exact keeps
  · exact keeps.withAtlas rfl rfl keeps.atlas

theorem turnLive (keeps : f.Keeps accepted a) (layout : Layout) : (f.turnLive layout).Keeps accepted a := by
  have turned : (f.modifyAtlas fun b => { b with image := (f.atlas.image.turn layout).1 }).Keeps accepted a :=
    keeps.withAtlas rfl rfl { keeps.atlas with }
  exact turned.record fun _ => copiesTexture_turn _ _

theorem turnRepack (keeps : f.Keeps accepted a) (layout : Layout) : (f.turnRepack layout).Keeps accepted a := by
  unfold Frame.turnRepack
  split
  · exact keeps
  · rename_i r running
    have mapped := keeps.atlas.mapRepack (f := fun r => { r with image := (r.image.turn layout).1 }) fun _ => rfl
    rw [running] at mapped
    have turned : (f.modifyAtlas fun b =>
        { b with repack := some { r with image := (r.image.turn layout).1 } }).Keeps accepted a :=
      keeps.withAtlas rfl rfl mapped
    exact turned.record fun _ => copiesTexture_turn _ _

theorem grow (keeps : f.Keeps accepted a) (capacity : Capacity) : (f.grow capacity).2.Keeps accepted a := by
  simp only [Frame.grow]
  split
  · exact keeps.announce _
  · rename_i handle device created
    have created : ({ f with device } : Frame).Keeps accepted a := keeps.withAtlas rfl rfl keeps.atlas
    have copied : ({ f with device }.record (copyCommands f.atlas.image ⟨handle, capacity, .undefined⟩).1).Keeps
        accepted a := by
      refine created.record fun _ c member => ?_
      simp only [copyCommands, List.mem_append, List.mem_singleton] at member
      rcases member with (((first | second) | rfl) | third) | fourth
      · exact copiesTexture_turn _ _ c first
      · exact copiesTexture_turn _ _ c second
      · trivial
      · exact copiesTexture_turn _ _ c third
      · exact copiesTexture_turn _ _ c fourth
    refine copied.withAtlas rfl rfl ?_
    obtain ⟨entries, tableStale, refreshed, refreshes⟩ := refreshEntries_eq
      { f.atlas with
        image := (copyCommands f.atlas.image ⟨handle, capacity, .undefined⟩).2
        retired := f.atlas.retired ++ [f.atlas.image.handle] }
    show Atlas.Keeps accepted a
      { refreshEntries { f.atlas with
          image := (copyCommands f.atlas.image ⟨handle, capacity, .undefined⟩).2
          retired := f.atlas.retired ++ [f.atlas.image.handle] } with tableStale := true }.rebuildBins
    rw [refreshed]
    exact { keeps.atlas with registry := refreshes accepted keeps.atlas.registry }

theorem growRequested (keeps : f.Keeps accepted a) : f.growRequested.Keeps accepted a := by
  simp only [Frame.growRequested]
  split
  · exact keeps.withAtlas rfl rfl { keeps.atlas with }
  · have grown := keeps.grow ⟨f.atlas.side, f.atlas.layerRequest⟩
    generalize f.grow ⟨f.atlas.side, f.atlas.layerRequest⟩ = result at grown ⊢
    obtain ⟨_ | _, g⟩ := result
    · exact grown
    · exact grown.withAtlas rfl rfl { grown.atlas with }

theorem growUntilPlaced {steps : List Capacity} (keeps : f.Keeps accepted a)
    (texture : (f.atlas.slot id).texture = some t) (unplaced : (f.atlas.slot id).place = none) :
    (Frame.growUntilPlaced id (t.width + 2 * f.atlas.config.padding) (t.height + 2 * f.atlas.config.padding) steps
      f).2.Keeps accepted a := by
  induction steps generalizing f with
  | nil => exact keeps
  | cons capacity rest ih =>
    have grown := keeps.grow capacity
    obtain ⟨slots, config, _⟩ := grow_keeps f capacity
    rw [Frame.growUntilPlaced]
    generalize f.grow capacity = result at grown slots config
    obtain ⟨_ | _, g⟩ := result
    · exact grown
    · dsimp only at grown slots config ⊢
      have textureOf : (g.atlas.slot id).texture = some t := by rwa [slot, slots]
      have unplacedOf : (g.atlas.slot id).place = none := by rwa [slot, slots]
      rw [← config]
      split
      · rename_i b found
        exact grown.withAtlas rfl rfl (grown.atlas.place textureOf unplacedOf found)
      · exact ih grown textureOf unplacedOf

theorem place (keeps : f.Keeps accepted a) (texture : (f.atlas.slot id).texture = some t)
    (unplaced : (f.atlas.slot id).place = none) :
    (f.place id (t.width + 2 * f.atlas.config.padding) (t.height + 2 * f.atlas.config.padding)).2.Keeps accepted a := by
  unfold Frame.place
  split
  · rename_i b found
    exact keeps.withAtlas rfl rfl (keeps.atlas.place texture unplaced found)
  · exact keeps.growUntilPlaced texture unplaced

theorem placeWaiting {short : Bool × Frame} (keeps : short.2.Keeps accepted a) (id : Nat) :
    (Frame.placeWaiting short id).2.Keeps accepted a := by
  obtain ⟨isShort, f⟩ := short
  simp only [Frame.placeWaiting]
  split
  · rename_i t texture unplaced
    have placed := Keeps.place keeps texture unplaced
    simp only [paddedSize]
    generalize f.place id _ _ = result at placed ⊢
    obtain ⟨_ | _, g⟩ := result
    · exact placed.withAtlas rfl rfl { placed.atlas with }
    · exact placed
  · exact keeps

theorem placeAllWaiting (keeps : f.Keeps accepted a) (ids : List Nat) : (f.placeAllWaiting ids).Keeps accepted a := by
  have placed : (ids.foldl Frame.placeWaiting (false, f)).2.Keeps accepted a :=
    List.foldlRecOn (motive := fun short => short.2.Keeps accepted a) ids Frame.placeWaiting keeps
      fun _ before id _ => before.placeWaiting id
  unfold Frame.placeAllWaiting
  generalize ids.foldl Frame.placeWaiting (false, f) = result at placed ⊢
  obtain ⟨_ | _, g⟩ := result
  · exact placed
  · exact placed.announce _

theorem adoptReady (keeps : f.Keeps accepted a) : f.adoptReady.Keeps accepted a := by
  unfold Frame.adoptReady
  split
  · exact keeps
  · rename_i r running
    split
    · have adopted : (f.modifyAtlas (·.adopt r)).Keeps accepted a :=
        keeps.withAtlas rfl rfl (keeps.atlas.adopt running)
      exact adopted.announce _
    · exact keeps

theorem startRequested (keeps : f.Keeps accepted a) : f.startRequested.Keeps accepted a := by
  have drops : (f.modifyAtlas fun b => { b with repackRequest := none }).Keeps accepted a :=
    keeps.withAtlas rfl rfl { keeps.atlas with }
  unfold Frame.startRequested
  split
  · unfold Frame.startRepack
    dsimp only
    split
    · exact drops
    · rename_i item rest isItems
      split
      · exact drops.announce _
      · rename_i plan found
        obtain ⟨c, _, planned⟩ := List.exists_of_findSome?_eq_some found
        rw [← isItems] at planned ⊢
        simp only [Frame.startPlanned]
        split
        · exact keeps.announce _
        · refine Keeps.announce ?_ _
          refine keeps.withAtlas rfl rfl ?_
          exact keeps.atlas.start planned rfl
  · exact keeps

theorem takeWaiting (keeps : f.Keeps accepted a) : f.takeWaiting.2.2.Keeps accepted a := by
  simp only [Frame.takeWaiting]
  split
  · exact keeps.withAtlas rfl rfl { keeps.atlas with }
  · rename_i r running
    have mapped := keeps.atlas.mapRepack (f := fun r => { r with queue := r.queue.drain.2 }) fun _ => rfl
    rw [running] at mapped
    exact keeps.withAtlas rfl rfl { mapped with }

theorem staged (keeps : f.Keeps accepted a) {count : Nat} {bytes : ByteArray}
    (staged : f.Staged next count start bytes) : next.Keeps accepted a where
  atlas := staged.atlas ▸ keeps.atlas
  positive := keeps.positive
  copies := by
    intro fitted c member
    rw [staged.commands] at member
    exact (keeps.copies fitted c member).extend staged.grown

/-- The copy of a texture that was staged for a place of its padded size. -/
theorem copiesTexture_upload (keeps : f.Keeps accepted a) (texture : (f.atlas.slot id).texture = some t)
    (staged : f.Staged next (p.width * p.height * 4) start (t.padded f.atlas.config.padding))
    (fits : a.Fitted → p.Fits t f.atlas.config.padding) (img : OwnedImage) {staging : Staging}
    (same : staging = next.staging) : a.Fitted → ∀ c ∈ [uploadCommand img start p], c.CopiesTexture a staging := by
  intro fitted c member
  cases List.mem_singleton.mp member
  have fits := fits fitted
  have config := keeps.atlas.config
  have size : (t.padded f.atlas.config.padding).size = p.width * p.height * 4 := by
    rw [Texture.padded_size, fits.width, fits.height]
  rw [same]
  rw [config] at size fits staged
  exact ⟨id, t, keeps.atlas.texture id ▸ texture, fits.width, fits.height, size, staged.used, staged.holds size⟩

theorem uploadWaiting (keeps : f.Keeps accepted a) (id : Nat) : (f.uploadWaiting id).Keeps accepted a := by
  have positive : 0 < f.atlas.alignment := keeps.atlas.alignment ▸ keeps.positive
  unfold Frame.uploadWaiting
  split
  · rename_i t p texture placed
    rcases stageTexture_cases positive t p with full | ⟨start, next, fits, staged⟩
    · rw [full]
      have announced := keeps.announce .stagingOverflow
      exact announced.withAtlas rfl rfl { announced.atlas with }
    · rw [fits]
      have turned := (keeps.staged staged).turnLive .transferTarget
      have fitted := fun before => (keeps.atlas.fitted before).1 id t p texture placed
      have recorded := turned.record
        (keeps.copiesTexture_upload texture staged fitted (next.turnLive .transferTarget).atlas.image rfl)
      refine recorded.withAtlas rfl rfl (turned.atlas.reveal (t := t) (p := p) ?_ ?_)
      · show (next.atlas.slot id).texture = some t
        rw [staged.atlas, texture]
      · show (next.atlas.slot id).place = some p
        rw [staged.atlas]
        exact placed
  · exact keeps

theorem uploadPlanned {written : Bool × Frame} (keeps : written.2.Keeps accepted a) (id : Nat) :
    (Frame.uploadPlanned written id).2.Keeps accepted a := by
  obtain ⟨isWritten, f⟩ := written
  have positive : 0 < f.atlas.alignment := keeps.atlas.alignment ▸ keeps.positive
  simp only [Frame.uploadPlanned]
  split
  · rename_i r t running texture
    split
    · exact keeps
    · rename_i p planned
      rcases stageTexture_cases positive t p with full | ⟨start, next, fits, staged⟩
      · simp only [full]
        have announced := Keeps.announce keeps .stagingOverflow
        exact announced.withAtlas rfl rfl (announced.atlas.mapRepack fun _ => rfl)
      · simp only [fits]
        have runs : next.atlas.repack = some r := staged.atlas ▸ running
        have turned := (Keeps.staged keeps staged).turnRepack .transferTarget
        have fitted := fun before => (keeps.atlas.fitted before).2 r id t p running texture planned
        exact turned.record (Keeps.copiesTexture_upload keeps texture staged fitted _
          (turnRepack_eq runs .transferTarget).2)
  · exact keeps

theorem uploadTable (keeps : f.Keeps accepted a) : f.uploadTable.Keeps accepted a := by
  have positive : 0 < f.atlas.alignment := keeps.atlas.alignment ▸ keeps.positive
  unfold Frame.uploadTable
  split
  · simp only
    split
    · exact keeps.announce _
    · rename_i start next found
      have staged := keeps.staged (staged_of_stage positive found)
      have plain : ∀ c ∈ [.copyToBuffer start next.atlas.tableBuffer f.atlas.config.tableBytes,
          .bufferBarrier next.atlas.tableBuffer], Command.CopiesTexture a next.staging c := by
        intro c member
        rcases List.mem_cons.mp member with rfl | last
        · trivial
        · cases List.mem_singleton.mp last
          trivial
      exact (staged.record fun _ => plain).withAtlas rfl rfl { staged.atlas with }
  · exact keeps

theorem finish (keeps : f.Keeps accepted a) (planned : List Nat) : (f.finish planned).Keeps accepted a := by
  have uploaded : (planned.foldl Frame.uploadPlanned (false, f)).2.Keeps accepted a :=
    List.foldlRecOn (motive := fun written => written.2.Keeps accepted a) planned Frame.uploadPlanned keeps
      fun _ before id _ => before.uploadPlanned id
  have drawn := uploaded.uploadTable.turnLive .shaderRead
  simp only [Frame.finish, Frame.finishRepack]
  generalize (planned.foldl Frame.uploadPlanned (false, f)).1 = written at drawn ⊢
  have turned : ∀ g : Frame, g.Keeps accepted a →
      (if written then g.turnRepack .shaderRead else g).Keeps accepted a := by
    intro g keeps
    split
    · exact keeps.turnRepack .shaderRead
    · exact keeps
  have last := turned _ drawn
  refine last.withAtlas rfl rfl (last.atlas.mapRepack fun r => ?_)
  split <;> rfl

theorem flush (keeps : f.Keeps accepted a) : f.flush.Keeps accepted a := by
  have taken := keeps.adoptReady.startRequested.growRequested.takeWaiting
  refine finish ?_ _
  exact List.foldlRecOn (motive := fun g => g.Keeps accepted a) _ Frame.uploadWaiting (taken.placeAllWaiting _)
    fun _ before id _ => before.uploadWaiting id

end Keeps

end TextureLoom.Atlas.Frame
