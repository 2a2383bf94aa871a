import TextureLoom.Proofs.Atlas.Adopting

set_option autoImplicit false

namespace TextureLoom.Atlas

variable {tracked : Nat → Prop} {accepted : Nat → Option PixelBuffer} {a : Atlas} {live : Device}

namespace Frame

variable {promised : Submission → Nat → Prop} {waiting : List Submission} {f : Frame}

/-- The ids that wait for a repack are to be done with once they are taken from its queue. -/
theorem Sound.takeWaiting (sound : f.Sound promised waiting tracked accepted []) :
    f.takeWaiting.2.2.Sound promised waiting tracked accepted f.takeWaiting.2.1 := by
  simp only [Frame.takeWaiting]
  split
  · dsimp only
    exact sound.modifyAtlas fun live atlas => { atlas with }
  · rename_i r running
    obtain ⟨live, reaches, atlas⟩ := sound
    have repack := atlas.repack r running
    dsimp only
    refine ⟨live, reaches.modifyAtlas _, ?_⟩
    exact
      { atlas with
        repack := by
          intro other isOther
          cases isOther
          exact { repack with queue := repack.queue.drain }
        steady := Or.inr (atlas.valid_of_running running)
        content := by
          intro id isTracked
          have content := atlas.content id isTracked
          refine ⟨content.fits, content.shown, ?_⟩
          intro other t isOther valid texture
          cases isOther
          obtain ⟨p, plans⟩ := content.planned r t running valid texture
          refine ⟨p, plans.planned, plans.fits, plans.holds.imp_left fun both => ⟨both.1, Or.inl ?_⟩⟩
          exact Queue.mem_drain repack.queue (both.2.resolve_left List.not_mem_nil) }

/-- What a flush records behind the point at which a finished repack is shown. -/
theorem Sound.flush_of_adoptReady (sound : f.adoptReady.Sound promised waiting tracked accepted []) :
    f.flush.Sound promised waiting tracked accepted [] := by
  have taken := (sound.startRequested.growRequested).takeWaiting
  exact ((taken.placeAllWaiting _).uploadAllWaiting).finish

end Frame

theorem Device.destroyImage_keeps (d : Device) (handle : Nat) :
    (d.destroyImage handle).handles = d.handles ∧ (d.destroyImage handle).alignment = d.alignment ∧
      (d.destroyImage handle).buffers = d.buffers ∧
      ∀ other, other ≠ handle → (d.destroyImage handle).images.get? other = d.images.get? other := by
  unfold Device.destroyImage
  split
  · exact ⟨rfl, rfl, rfl, fun _ _ => rfl⟩
  · exact ⟨rfl, rfl, rfl, fun _ distinct => Table.get?_erase_of_ne _ distinct⟩

/-- Images that the atlas does not use any more may go. -/
theorem Sound.destroyImages {handles : List Nat} (sound : Sound tracked accepted a live [])
    (unused : ∀ handle ∈ handles, ¬a.Uses handle) :
    Sound tracked accepted a (handles.foldl Device.destroyImage live) [] := by
  induction handles generalizing live with
  | nil => exact sound
  | cons handle rest ih =>
    obtain ⟨sameHandles, alignment, buffers, images⟩ := Device.destroyImage_keeps live handle
    refine ih (sound.carry (Nat.le_of_eq sameHandles.symm) alignment buffers ?_) fun later member =>
      unused later (List.mem_cons_of_mem handle member)
    intro other _ uses
    apply images other
    rintro rfl
    exact unused other List.mem_cons_self uses

/-- Nothing that an atlas uses goes when the device has finished. -/
theorem Sound.deviceFinished (sound : Sound tracked accepted a live []) (staging : Staging) :
    Sound tracked accepted (a.deviceFinished live staging).1 (a.deviceFinished live staging).2.1 [] := by
  have destroyed : Sound tracked accepted a (a.retired.foldl Device.destroyImage live) [] := by
    apply sound.destroyImages
    rintro handle member (isLive | ⟨r, running, rfl⟩)
    · exact (sound.retired handle member).2 isLive
    · exact (sound.repack r running).kept member
  have emptied : Sound tracked accepted { a with retired := [] } (a.retired.foldl Device.destroyImage live) [] :=
    { destroyed with
      retired := fun _ member => by cases member
      repack := fun r running => { destroyed.repack r running with kept := List.not_mem_nil } }
  rw [Atlas.deviceFinished]
  apply emptied.advance
  intro r
  split
  · rename_i both
    exact Or.inr ⟨.ready, rfl, fun _ => both.2⟩
  · exact Or.inl rfl

theorem size_initialEntries (c : Config) : (initialEntries c).size = c.maxTextureId := by
  have kept : ∀ count : Nat, (count.fold (fun layer _ entries => entries.setIfInBounds (layerId layer)
      (.wholeLayer layer)) (Array.replicate c.maxTextureId Entry.blank)).size = c.maxTextureId := by
    intro count
    induction count with
    | zero => exact Array.size_replicate
    | succ count ih => rw [Nat.fold_succ, Array.size_setIfInBounds, ih]
  exact kept c.maxLayers

theorem slot_ofImage (c : Config) (alignment handle tableBuffer id : Nat) :
    (ofImage c alignment handle tableBuffer).slot id = {} := by
  simp only [slot, ofImage, Array.getD_eq_getD_getElem?, Array.getElem?_replicate]
  split <;> rfl

theorem registry_ofImage (c : Config) (alignment handle tableBuffer : Nat) :
    Registry (fun _ => none) c.maxTextureId (ofImage c alignment handle tableBuffer).slots
      (ofImage c alignment handle tableBuffer).entries [] c.reservedCount := by
  have blank : ∀ id, (ofImage c alignment handle tableBuffer).slots.getD id {} = {} :=
    slot_ofImage c alignment handle tableBuffer
  exact
    { slots_size := Array.size_replicate
      entries_size := size_initialEntries c
      sound := fun id => by
        rw [blank]
        exact Slot.sound_default
      marked := fun id valid => by
        rw [blank] at valid
        cases valid
      distinct := List.nodup_nil
      removed := fun _ member => by cases member
      unused := fun id _ => congrArg Slot.status (blank id) }

/-- All texels of a new atlas are free. -/
theorem packed_ofImage {c : Config} {alignment handle tableBuffer : Nat} (allowed : c.initialSide ∈ allowedSides) :
    Packed (ofImage c alignment handle tableBuffer).placement? (ofImage c alignment handle tableBuffer).bins
      (ofImage c alignment handle tableBuffer).image.capacity :=
  packed_bins (pos_of_mem_allowedSides allowed) fun id => congrArg Slot.place (slot_ofImage c _ _ _ id)

/-- An atlas of a new image knows no texture. -/
theorem sound_ofImage {c : Config} {alignment handle tableBuffer : Nat}
    (image : ∃ i, live.Tracks ⟨handle, ⟨c.initialSide, 1⟩, .undefined⟩ i)
    (table : live.HasBuffer tableBuffer c.tableBytes) (aligned : live.alignment ∣ alignment)
    (alignment_pos : 0 < alignment) (all : (∀ id, tracked id) ∨ ∀ id, ¬tracked id) :
    Sound tracked (fun _ => none) (ofImage c alignment handle tableBuffer) live [] := by
  obtain ⟨_, tracks⟩ := image
  have blank : ∀ id, (ofImage c alignment handle tableBuffer).slot id = {} :=
    slot_ofImage c alignment handle tableBuffer
  exact
    { image := ⟨_, tracks⟩
      retired := fun _ member => by cases member
      repack := fun _ running => by cases running
      table := table
      aligned := aligned
      alignment_pos := alignment_pos
      packed := packed_ofImage tracks.allowed
      usable := fun _ _ isBuffer => by cases isBuffer
      registry := registry_ofImage c alignment handle tableBuffer
      steady := all.imp (fun all => ⟨all, rfl, rfl⟩) fun none id isTracked => absurd isTracked (none id)
      content := fun id _ => Content.of_empty (congrArg Slot.texture (blank id)) }

theorem initialSide_mem_of_validate {c : Config} (valid : c.validate = .ok ()) : c.initialSide ∈ allowedSides := by
  unfold Config.validate at valid
  split at valid
  · cases valid
  · rename_i allowed
    simpa using allowed

/-- A new atlas has the image that the device makes for a valid configuration, beside the staging buffer. -/
theorem create_eq_ok_iff {c : Config} {device : Device} {given : Option Staging} {staging : Staging} :
    Atlas.create c device given = .ok (a, live, staging) ↔
      c.validate = .ok () ∧ stagingFor c given = .ok staging ∧
        ∃ handle, (device.createBuffer c.tableBytes).2.createImage c.initialSide 1 = .ok (handle, live) ∧
          a = ofImage c (max live.alignment 4) handle (device.createBuffer c.tableBytes).1 := by
  unfold Atlas.create
  constructor
  · intro created
    rcases valid : c.validate with e | _
    · rw [valid] at created
      cases created
    rcases isStaging : stagingFor c given with e | buffer
    · rw [valid, isStaging] at created
      cases created
    rw [valid, isStaging] at created
    change ((device.createBuffer c.tableBytes).2.createImage c.initialSide 1).mapError CreateError.image >>= _ = _
      at created
    rcases isImage : (device.createBuffer c.tableBytes).2.createImage c.initialSide 1 with e | ⟨handle, after⟩
    · rw [isImage] at created
      cases created
    · rw [isImage] at created
      cases created
      exact ⟨rfl, rfl, handle, rfl, rfl⟩
  · rintro ⟨valid, isStaging, handle, isImage, rfl⟩
    rw [valid, isStaging]
    show ((device.createBuffer c.tableBytes).2.createImage c.initialSide 1).mapError CreateError.image >>= _ = _
    rw [isImage]
    rfl

/-- A new atlas is sound on its device, with either of the copy alignments that it provides for. -/
theorem sound_of_create {c : Config} {device : Device} {given : Option Staging} {staging : Staging}
    (alignment : device.alignment = 1 ∨ device.alignment = 2 ∨ 4 ≤ device.alignment)
    (created : Atlas.create c device given = .ok (a, live, staging))
    (all : (∀ id, tracked id) ∨ ∀ id, ¬tracked id) : Sound tracked (fun _ => none) a live [] := by
  obtain ⟨valid, _, handle, isImage, rfl⟩ := create_eq_ok_iff.mp created
  obtain ⟨rfl, rfl⟩ := Device.eq_of_createImage isImage
  have allowed : (Capacity.mk c.initialSide 1).side ∈ allowedSides := initialSide_mem_of_validate valid
  have isNew := Device.tracks_added (device.createBuffer c.tableBytes).2 allowed
  refine sound_ofImage ⟨_, isNew⟩ ⟨Nat.le_succ _, ?_⟩ ?_ ?_ all
  · simp only [Device.added, Device.createBuffer, Table.get?_insert_self, Option.map_some, Bytes.zeros_size]
  · show device.alignment ∣ max device.alignment 4
    rcases alignment with one | two | large
    · rw [one]
      decide
    · rw [two]
      decide
    · exact ⟨1, by omega⟩
  · show 0 < max device.alignment 4
    omega

end TextureLoom.Atlas
