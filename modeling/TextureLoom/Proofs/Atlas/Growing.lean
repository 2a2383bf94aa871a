import TextureLoom.Proofs.Atlas.Uploading

set_option autoImplicit false

namespace TextureLoom.Atlas

variable {tracked : Nat → Prop} {accepted : Nat → Option PixelBuffer} {a : Atlas} {live after : Device}
  {todo : List Nat} {id : Nat}

/-- The image that was created last. -/
theorem Device.tracks_added (live : Device) {capacity : Capacity} (allowed : capacity.side ∈ allowedSides) :
    (live.added (.create capacity.side capacity.layers)).Tracks ⟨live.handles + 1, capacity, .undefined⟩
      (.create capacity.side capacity.layers) where
  known := Nat.le_refl _
  found := Device.get?_added_self live _
  allowed := allowed
  side := rfl
  layers := rfl
  layout := rfl
  wellFormed := DeviceImage.wellFormed_create _ _

/-- One more image on the device. -/
theorem Sound.added (sound : Sound tracked accepted a live todo) (img : DeviceImage) :
    Sound tracked accepted a (live.added img) todo :=
  sound.carry (Nat.le_succ _) rfl rfl fun _ known _ => Device.get?_added live img known

/-- A row that becomes valid is in order for any id. -/
theorem Registry.mark {count nextId : Nat} {slots : Array Slot} {entries : Array Entry} {freeIds : List Nat} {e : Entry}
    (registry : Registry accepted count slots entries freeIds nextId) (id : Nat) (valid : e.isValid = true) :
    Registry accepted count slots (entries.setIfInBounds id e) freeIds nextId :=
  { registry with
    entries_size := Array.size_setIfInBounds.trans registry.entries_size
    marked := by
      intro other isValid
      obtain ⟨old, found, oldValid⟩ := registry.marked other isValid
      rw [Array.getElem?_setIfInBounds]
      split
      · rename_i same
        subst same
        rw [if_pos (Array.getElem?_eq_some_iff.mp found).1]
        exact ⟨e, rfl, valid⟩
      · exact ⟨old, found, oldValid⟩ }

/-- Refreshing rows of the table leaves those of valid ids valid, and all else as it is. -/
theorem refreshEntries_eq (a : Atlas) :
    ∃ entries tableStale, Frame.refreshEntries a = { a with entries, tableStale } ∧
      ∀ accepted, Registry accepted a.config.maxTextureId a.slots a.entries a.freeIds a.nextId →
        Registry accepted a.config.maxTextureId a.slots entries a.freeIds a.nextId := by
  rw [Frame.refreshEntries]
  generalize List.range a.slots.size = ids
  induction ids generalizing a with
  | nil => exact ⟨a.entries, a.tableStale, rfl, fun _ registry => registry⟩
  | cons id rest ih =>
    rw [List.foldl_cons]
    split
    · rename_i isShown
      obtain ⟨p, placed⟩ := Option.isSome_iff_exists.mp isShown.2
      rw [showPlace, placed]
      obtain ⟨entries, tableStale, refreshed, keeps⟩ := ih (a.setEntry id (.ofPlacement p a.side))
      refine ⟨entries, tableStale, refreshed, fun accepted registry => ?_⟩
      exact keeps accepted (registry.mark id (isValid_ofPlacement p a.side))
    · exact ih a

/-- With another image, only what follows from the image is different. -/
theorem enlarged_eq (a : Atlas) (image : OwnedImage) (retired : List Nat) :
    { Frame.refreshEntries { a with image, retired } with tableStale := true }.rebuildBins = { a with
      image
      retired
      entries := (Frame.refreshEntries { a with image, retired }).entries
      tableStale := true
      bins := a.slots.foldl occupySlot image.capacity.bins } := by
  obtain ⟨entries, tableStale, refreshed, _⟩ := refreshEntries_eq { a with image, retired }
  rw [refreshed]
  rfl

/-- A larger image takes the place of the live one, with its texels. -/
theorem Sound.enlarge {image : OwnedImage} {i copied : DeviceImage} {staging : Staging} {commands : List Command}
    (sound : Sound tracked accepted a live todo) (tracks : live.Tracks a.image i) (fresh : image.handle ∉ a.retired)
    (freshRepack : ∀ r, a.repack = some r → r.image.handle ≠ image.handle) (distinct : image.handle ≠ a.image.handle)
    (runs : Runs staging commands [a.image.handle, image.handle] live after) (written : after.Tracks image copied)
    (larger : a.image.capacity.Le image.capacity)
    (same : ∀ layer x y, layer < a.image.capacity.layers → x < a.image.capacity.side → y < a.image.capacity.side →
      copied.texel? layer x y = i.texel? layer x y) :
    Sound tracked accepted
      { Frame.refreshEntries { a with image, retired := a.retired ++ [a.image.handle] } with
        tableStale := true }.rebuildBins after todo := by
  obtain ⟨entries, tableStale, refreshed, refreshes⟩ :=
    refreshEntries_eq { a with image, retired := a.retired ++ [a.image.handle] }
  rw [refreshed]
  have repackOutside : ∀ r, a.repack = some r → r.image.handle ∉ [a.image.handle, image.handle] := by
    intro r running inside
    rcases List.mem_cons.mp inside with isOld | isNew
    · exact (sound.repack r running).apart isOld
    · exact freshRepack r running (List.mem_singleton.mp isNew)
  exact
    { image := ⟨copied, written⟩
      retired := by
        intro handle member
        rw [runs.handles]
        rcases List.mem_append.mp member with earlier | last
        · exact ⟨(sound.retired handle earlier).1, fun isNew => fresh (isNew ▸ earlier)⟩
        · cases List.mem_singleton.mp last
          exact ⟨tracks.known, distinct.symm⟩
      repack := by
        intro r running
        have repack := (sound.repack r running).of_runs runs (repackOutside r running)
        refine { repack with apart := freshRepack r running, kept := ?_ }
        intro member
        rcases List.mem_append.mp member with earlier | last
        · exact repack.kept earlier
        · exact repack.apart (List.mem_singleton.mp last)
      table := sound.table.of_runs runs
      aligned := runs.alignment ▸ sound.aligned
      alignment_pos := sound.alignment_pos
      packed := Packed.rebuild (pos_of_mem_allowedSides written.allowed)
        (sound.packed.sound.mono larger fun _ _ found => found)
      usable := sound.usable
      registry := refreshes accepted sound.registry
      steady := sound.steady
      content := by
        intro other isTracked
        refine (sound.content other isTracked).redraw ?_ fun r p running _ => runs.sameAt (repackOutside r running) p
        intro p placed
        apply tracks.sameAt written
        intro x y covers
        obtain ⟨columns, rows, layer⟩ := sound.packed.sound.within other p placed
        simp only [Rect.Covers, Rect.right, Rect.bottom, Placement.rect] at covers
        exact same _ _ _ layer (by omega) (by omega) }

/-- An id is given a place of a size in the bins. -/
structure Situates (id width height : Nat) (p : Placement) (a b : Atlas) : Prop where
  takes : Takes a.bins b.bins p width height
  edits : Edits id a b
  slot : id < a.slots.size → b.slot id = { a.slot id with place := some p }
  freeIds : b.freeIds = a.freeIds
  nextId : b.nextId = a.nextId

theorem situates_of_place? {width height : Nat} {b : Atlas} (found : a.place? id width height = some b) :
    ∃ p, Situates id width height p a b := by
  obtain ⟨⟨p, bins⟩, placed, rfl⟩ := Option.map_eq_some_iff.mp found
  exact ⟨p, takes_of_placeFrom_zero placed, { edits_modifySlot a id fun s => { s with place := some p } with },
    fun bound => slot_modifySlot_self bound _, rfl, rfl⟩

theorem Situates.registry {width height : Nat} {p : Placement} {b : Atlas} (situates : Situates id width height p a b)
    (registry : Registry accepted a.config.maxTextureId a.slots a.entries a.freeIds a.nextId)
    (texture : (a.slot id).texture.isSome) (invalid : (a.slot id).status ≠ .valid) :
    Registry accepted b.config.maxTextureId b.slots b.entries b.freeIds b.nextId := by
  have edits := situates.edits
  have slotSound : (a.slot id).Sound (accepted id) := registry.sound id
  have registered := slotSound.registered texture
  have slotOf : b.slots.getD id {} = { a.slot id with place := some p } := situates.slot (lt_of_isRegistered registered)
  rw [edits.config, situates.freeIds, situates.nextId]
  refine registry.update_registered registered edits.slots_size edits.entries_size edits.slotOf edits.entryOf
    (fun _ _ => rfl) ?_ ?_
  · rw [slotOf]
    exact slotSound.at_place texture p
  · intro valid
    rw [slotOf] at valid
    exact absurd valid invalid

/-- The bins of an atlas are in order once an id without a place has one. -/
theorem Packed.situate {width height : Nat} {p : Placement} {b : Atlas}
    (packed : Packed a.placement? a.bins a.image.capacity) (situates : Situates id width height p a b)
    (bound : id < a.slots.size) (unplaced : (a.slot id).place = none) :
    Packed b.placement? b.bins a.image.capacity := by
  have adds : ∀ other q, b.placement? other = some q ↔
      other = id ∧ q = p ∨ other ≠ id ∧ a.placement? other = some q := by
    intro other q
    by_cases same : other = id
    · subst same
      simp [placement?, situates.slot bound, eq_comm]
    · simp [placement?, situates.edits.slotOf other same, same]
  exact packed.add situates.takes adds unplaced

/-- A texture without a place gets one of its padded size. -/
theorem Sound.place {t : Texture} {b : Atlas} (sound : Sound tracked accepted a live todo)
    (texture : (a.slot id).texture = some t) (unplaced : (a.slot id).place = none)
    (found : a.place? id (t.width + 2 * a.config.padding) (t.height + 2 * a.config.padding) = some b) :
    Sound tracked accepted b live todo := by
  obtain ⟨p, situates⟩ := situates_of_place? found
  have takes := situates.takes
  have edits := situates.edits
  have slotSound : (a.slot id).Sound (accepted id) := sound.registry.sound id
  have hasTexture : (a.slot id).texture.isSome := by rw [texture]; rfl
  have bound := lt_of_isRegistered (slotSound.registered hasTexture)
  have slotOf := situates.slot bound
  have invalid := slotSound.invalid_of_unplaced unplaced
  refine sound.edit edits ?_ sound.usable (situates.registry sound.registry hasTexture invalid) ?_ ?_
  · rw [edits.image]
    exact sound.packed.situate situates bound unplaced
  · intro isTracked
    exact Or.inl (sound.steady.resolve_right fun valid => invalid (valid id isTracked))
  · intro _
    rw [slotOf, edits.config]
    refine ⟨?_, fun u q valid => absurd valid invalid, fun r u _ valid => absurd valid invalid⟩
    intro u q isTexture isPlaced
    cases texture.symm.trans isTexture
    cases isPlaced
    exact ⟨takes.width_eq, takes.height_eq⟩

namespace Frame

variable {promised : Submission → Nat → Prop} {waiting : List Submission} {f : Frame}

theorem within_copyCommands {old new : OwnedImage} {handles used : Nat} (oldKnown : old.handle ≤ handles)
    (newKnown : new.handle ≤ handles) : ∀ c ∈ (copyCommands old new).1, c.Within handles used := by
  intro c member
  simp only [copyCommands, List.mem_append, List.mem_singleton] at member
  rcases member with (((first | second) | copy) | third) | fourth
  · exact within_turn oldKnown _ c first
  · exact within_turn newKnown _ c second
  · cases copy
    simp only [Command.Within, OwnedImage.turn_handle]
    exact ⟨oldKnown, newKnown⟩
  · exact within_turn (by simpa using newKnown) _ c third
  · exact within_turn (by simpa using oldKnown) _ c fourth

theorem copyCommands_image (old new : OwnedImage) :
    (copyCommands old new).2.handle = new.handle ∧ (copyCommands old new).2.capacity = new.capacity := by
  simp [copyCommands]

theorem Sound.allowed (sound : f.Sound promised waiting tracked accepted todo) :
    f.atlas.image.capacity.side ∈ allowedSides := by
  obtain ⟨_, _, atlas⟩ := sound
  obtain ⟨_, tracks⟩ := atlas.image
  exact tracks.allowed

theorem Sound.grow {capacity : Capacity} (sound : f.Sound promised waiting tracked accepted todo)
    (larger : f.atlas.image.capacity.Le capacity) (allowed : capacity.side ∈ allowedSides) :
    (f.grow capacity).2.Sound promised waiting tracked accepted todo := by
  simp only [Frame.grow]
  split
  · exact sound.announce _
  · rename_i handle device created
    obtain ⟨rfl, rfl⟩ := Device.eq_of_createImage created
    obtain ⟨live, reaches, atlas⟩ := sound
    have sameHandles := reaches.handles
    have added := atlas.added (.create capacity.side capacity.layers)
    obtain ⟨i, tracks⟩ := added.image
    obtain ⟨_, known⟩ := atlas.image
    have isNew := Device.tracks_added live allowed
    rw [sameHandles] at isNew
    have older : ∀ handle ≤ live.handles, f.device.handles + 1 ≠ handle := by
      intro handle less
      omega
    obtain ⟨after, copied, runs, written, same⟩ := tracks.copyOnto isNew (older _ known.known) larger f.staging
    have newKnown : f.device.handles + 1 ≤ (f.device.added (.create capacity.side capacity.layers)).handles :=
      Nat.le_refl _
    have oldKnown : f.atlas.image.handle ≤ (f.device.added (.create capacity.side capacity.layers)).handles :=
      Nat.le_succ_of_le (sameHandles ▸ known.known)
    obtain ⟨sameHandle, sameCapacity⟩ := copyCommands_image f.atlas.image ⟨f.device.handles + 1, capacity, .undefined⟩
    have recorded := (reaches.create (.create capacity.side capacity.layers)).record runs
      (within_copyCommands oldKnown newKnown)
    dsimp only
    refine ⟨after, recorded.modifyAtlas _, ?_⟩
    rw [← sameHandle] at runs
    refine added.enlarge tracks ?_ ?_ ?_ runs written ?_ same
    · rw [sameHandle]
      intro member
      exact older _ (atlas.retired _ member).1 rfl
    · rw [sameHandle]
      intro r running
      obtain ⟨_, repackKnown⟩ := (atlas.repack r running).tracked
      exact (older _ repackKnown.known).symm
    · rw [sameHandle]
      exact older _ known.known
    · rw [sameCapacity]
      exact larger

/-- Growth is of the image alone. -/
theorem grow_keeps (f : Frame) (capacity : Capacity) :
    (f.grow capacity).2.atlas.slots = f.atlas.slots ∧ (f.grow capacity).2.atlas.config = f.atlas.config ∧
      ((f.grow capacity).1 = true → (f.grow capacity).2.atlas.image.capacity = capacity) := by
  simp only [Frame.grow]
  split
  · rw [announce_atlas]
    exact ⟨rfl, rfl, fun grown => by cases grown⟩
  · rename_i handle device created
    dsimp only [Frame.modifyAtlas, Frame.record]
    rw [enlarged_eq]
    exact ⟨rfl, rfl, fun _ => (copyCommands_image f.atlas.image ⟨handle, capacity, .undefined⟩).2⟩

theorem Sound.growUntilPlaced {t : Texture} {steps : List Capacity}
    (sound : f.Sound promised waiting tracked accepted todo) (texture : (f.atlas.slot id).texture = some t)
    (unplaced : (f.atlas.slot id).place = none)
    (grows : (f.atlas.image.capacity :: steps).Pairwise Capacity.Grows) :
    (Frame.growUntilPlaced id (t.width + 2 * f.atlas.config.padding) (t.height + 2 * f.atlas.config.padding) steps
      f).2.Sound promised waiting tracked accepted todo := by
  induction steps generalizing f with
  | nil => exact sound
  | cons capacity rest ih =>
    rw [List.pairwise_cons] at grows
    have next := grows.1 capacity List.mem_cons_self
    have grown := sound.grow next.larger (next.allowed sound.allowed)
    obtain ⟨slots, config, reached⟩ := grow_keeps f capacity
    rw [Frame.growUntilPlaced]
    rcases isGrown : f.grow capacity with ⟨_ | _, g⟩
    · rw [isGrown] at grown
      exact grown
    · rw [isGrown] at grown slots config reached
      dsimp only at grown slots config reached ⊢
      have textureOf : (g.atlas.slot id).texture = some t := by rwa [slot, slots]
      have unplacedOf : (g.atlas.slot id).place = none := by rwa [slot, slots]
      rw [← config]
      split
      · rename_i b found
        obtain ⟨live, reaches, atlas⟩ := grown
        exact ⟨live, reaches.congr rfl rfl rfl, atlas.place textureOf unplacedOf found⟩
      · refine ih grown textureOf unplacedOf ?_
        rw [reached rfl]
        exact grows.2

/-- An id with a texture but without a place gets one, or stays without. -/
theorem Sound.place {t : Texture} (sound : f.Sound promised waiting tracked accepted todo)
    (texture : (f.atlas.slot id).texture = some t) (unplaced : (f.atlas.slot id).place = none) :
    (f.place id (t.width + 2 * f.atlas.config.padding) (t.height + 2 * f.atlas.config.padding)).2.Sound promised waiting
      tracked accepted todo := by
  unfold Frame.place
  split
  · rename_i b found
    obtain ⟨live, reaches, atlas⟩ := sound
    exact ⟨live, reaches.congr rfl rfl rfl, atlas.place texture unplaced found⟩
  · exact sound.growUntilPlaced texture unplaced (growthSteps_grows _ _ _ _)

theorem Sound.placeWaiting {short : Bool × Frame} (sound : short.2.Sound promised waiting tracked accepted todo)
    (id : Nat) : (Frame.placeWaiting short id).2.Sound promised waiting tracked accepted todo := by
  obtain ⟨isShort, f⟩ := short
  simp only [Frame.placeWaiting]
  split
  · rename_i t texture unplaced
    have placed := sound.place texture unplaced
    simp only [paddedSize]
    generalize f.place id _ _ = result at placed ⊢
    obtain ⟨_ | _, g⟩ := result
    · dsimp only
      exact Sound.modifyAtlas placed fun live atlas => { atlas with }
    · exact placed
  · exact sound

theorem Sound.placeAllWaiting (sound : f.Sound promised waiting tracked accepted todo) (ids : List Nat) :
    (f.placeAllWaiting ids).Sound promised waiting tracked accepted todo := by
  have all : ∀ short : Bool × Frame, short.2.Sound promised waiting tracked accepted todo →
      (ids.foldl Frame.placeWaiting short).2.Sound promised waiting tracked accepted todo := by
    induction ids with
    | nil => exact fun _ sound => sound
    | cons id rest ih => exact fun _ sound => ih _ (sound.placeWaiting id)
  have placed := all (false, f) sound
  unfold Frame.placeAllWaiting
  generalize ids.foldl Frame.placeWaiting (false, f) = result at placed ⊢
  obtain ⟨_ | _, g⟩ := result
  · exact placed
  · exact placed.announce _

theorem Sound.growRequested (sound : f.Sound promised waiting tracked accepted todo) :
    f.growRequested.Sound promised waiting tracked accepted todo := by
  simp only [Frame.growRequested]
  split
  · exact sound.modifyAtlas fun live atlas => { atlas with }
  · rename_i more
    have larger : f.atlas.image.capacity.Le ⟨f.atlas.side, f.atlas.layerRequest⟩ :=
      ⟨Nat.le_refl _, Nat.le_of_lt (Nat.not_le.mp more)⟩
    have grown := sound.grow larger sound.allowed
    generalize f.grow ⟨f.atlas.side, f.atlas.layerRequest⟩ = result at grown ⊢
    obtain ⟨_ | _, g⟩ := result
    · exact grown
    · exact Sound.modifyAtlas grown fun live atlas => { atlas with }

end Frame

end TextureLoom.Atlas
