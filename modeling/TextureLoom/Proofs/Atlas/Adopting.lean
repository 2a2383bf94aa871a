import TextureLoom.Proofs.Atlas.Growing

set_option autoImplicit false

namespace TextureLoom.Atlas

variable {tracked : Nat → Prop} {accepted : Nat → Option PixelBuffer} {a b : Atlas} {live after : Device}
  {todo : List Nat} {id : Nat} {places : Table Nat Placement}

/-- The slot of an id once the image of a repack is shown. -/
def settledSlot (places : Table Nat Placement) (id : Nat) (s : Slot) : Slot :=
  if s.isRegistered then
    match s.texture, places.get? id with
    | some _, some p => { s with place := some p }.uploaded
    | some _, none => { s.unplaced with status := .pendingUpload }
    | none, _ => s.unplaced
  else s

theorem texture_settledSlot (s : Slot) : (settledSlot places id s).texture = s.texture := by
  unfold settledSlot
  split
  · split <;> rfl
  · rfl

theorem isRegistered_settledSlot (s : Slot) : (settledSlot places id s).isRegistered = s.isRegistered := by
  unfold settledSlot
  split
  · rename_i registered
    rw [registered]
    split
    · rfl
    · rfl
    · exact registered
  · rfl

theorem edits_settle (places : Table Nat Placement) (a : Atlas) (id : Nat) : Edits id a (settle places a id) := by
  simp only [settle]
  split
  · split
    · exact (edits_modifySlot a id _).trans (edits_showPlace _ id)
    · exact ((edits_modifySlot a id _).trans (edits_pushPending _ id)).trans (edits_setEntry _ id _)
    · exact (edits_modifySlot a id _).trans (edits_setEntry _ id _)
  · exact Edits.refl id a

/-- What showing the image of a repack does to one id. -/
structure Settles (places : Table Nat Placement) (id : Nat) (a b : Atlas) : Prop where
  edits : Edits id a b
  freeIds : b.freeIds = a.freeIds
  nextId : b.nextId = a.nextId
  repack : b.repack = a.repack
  slot : b.slot id = settledSlot places id (a.slot id)
  marked : ∀ t p, (a.slot id).texture = some t → places.get? id = some p →
    ∃ e, b.entries[id]? = some e ∧ e.isValid = true

theorem settles_settle (sizes : a.slots.size = a.entries.size) (registered : (a.slot id).isRegistered = true) :
    Settles places id a (settle places a id) := by
  have bound := lt_of_isRegistered registered
  simp only [settle, registered, ↓reduceIte]
  split
  · rename_i t p texture planned
    have slotOf := slot_modifySlot_self bound fun s => { s with place := some p }.uploaded
    obtain ⟨_, freeIds, nextId, repack⟩ :=
      showPlace_keeps (a.modifySlot id fun s => { s with place := some p }.uploaded) id
    exact
      { edits := (edits_modifySlot a id _).trans (edits_showPlace _ id)
        freeIds := freeIds
        nextId := nextId
        repack := repack
        slot := by
          rw [slot_showPlace, slotOf, settledSlot, if_pos registered, texture, planned]
        marked := fun _ _ _ _ => entries_showPlace (p := p) (by rw [slotOf]; rfl) (sizes ▸ bound) }
  · rename_i t texture unplanned
    have slotOf := slot_modifySlot_self bound fun s => { s.unplaced with status := .pendingUpload }
    exact
      { edits := ((edits_modifySlot a id _).trans (edits_pushPending _ id)).trans (edits_setEntry _ id _)
        freeIds := rfl
        nextId := rfl
        repack := rfl
        slot := by
          rw [settledSlot, if_pos registered, texture, unplanned]
          exact slotOf
        marked := by simp [unplanned] }
  · rename_i texture
    have slotOf := slot_modifySlot_self bound Slot.unplaced
    exact
      { edits := (edits_modifySlot a id _).trans (edits_setEntry _ id _)
        freeIds := rfl
        nextId := rfl
        repack := rfl
        slot := by
          rw [settledSlot, if_pos registered, texture, slot_setEntry, slotOf]
        marked := by simp [texture] }

theorem Settles.registry (settles : Settles places id a b) (registered : (a.slot id).isRegistered = true)
    (registry : Registry accepted a.config.maxTextureId a.slots a.entries a.freeIds a.nextId) :
    Registry accepted b.config.maxTextureId b.slots b.entries b.freeIds b.nextId := by
  have slotSound : (a.slot id).Sound (accepted id) := registry.sound id
  have slotOf := settles.slot
  rw [settledSlot, if_pos registered] at slotOf
  rw [settles.edits.config, settles.freeIds, settles.nextId]
  refine registry.update_registered registered settles.edits.slots_size settles.edits.entries_size settles.edits.slotOf
    settles.edits.entryOf (fun _ _ => rfl) ?_ ?_
  · rw [show b.slots.getD id {} = b.slot id from rfl, slotOf]
    split
    · rename_i texture _
      exact (slotSound.at_place (by rw [texture]; rfl) _).uploaded rfl
    · exact slotSound.waiting
    · rename_i texture
      refine Slot.sound_of_empty texture rfl ?_
      intro valid
      have isTexture := slotSound.texture_of_valid valid
      rw [texture] at isTexture
      cases isTexture
  · intro valid
    rw [show b.slots.getD id {} = b.slot id from rfl, slotOf] at valid
    split at valid
    · rename_i t p texture planned
      exact settles.marked t p texture planned
    · cases valid
    · rename_i texture
      have isTexture := slotSound.texture_of_valid valid
      rw [texture] at isTexture
      cases isTexture

/-- What showing the image of a repack does to some ids. -/
structure SettlesAll (accepted : Nat → Option PixelBuffer) (places : Table Nat Placement) (ids : List Nat)
    (a b : Atlas) : Prop where
  config : b.config = a.config
  alignment : b.alignment = a.alignment
  image : b.image = a.image
  tableBuffer : b.tableBuffer = a.tableBuffer
  retired : b.retired = a.retired
  repackRequest : b.repackRequest = a.repackRequest
  repack : b.repack = a.repack
  slotOf : ∀ id, b.slot id = if id ∈ ids then settledSlot places id (a.slot id) else a.slot id
  registry : Registry accepted b.config.maxTextureId b.slots b.entries b.freeIds b.nextId

theorem settlesAll_foldl {ids : List Nat} (distinct : ids.Nodup)
    (registry : Registry accepted a.config.maxTextureId a.slots a.entries a.freeIds a.nextId) :
    SettlesAll accepted places ids a (ids.foldl (settle places) a) := by
  induction ids generalizing a with
  | nil => exact ⟨rfl, rfl, rfl, rfl, rfl, rfl, rfl, fun _ => rfl, registry⟩
  | cons id rest ih =>
    rw [List.nodup_cons] at distinct
    rw [List.foldl_cons]
    by_cases registered : (a.slot id).isRegistered = true
    · have settles : Settles places id a (settle places a id) :=
        settles_settle registry.sizes registered
      obtain ⟨config, alignment, image, tableBuffer, retired, repackRequest, repack, slotOf, later⟩ :=
        ih distinct.2 (settles.registry registered registry)
      have edits := settles.edits
      refine ⟨config.trans edits.config, alignment.trans edits.alignment, image.trans edits.image,
        tableBuffer.trans edits.tableBuffer, retired.trans edits.retired, repackRequest.trans edits.repackRequest,
        repack.trans settles.repack, ?_, later⟩
      intro other
      rw [slotOf]
      by_cases same : other = id
      · subst same
        rw [if_neg distinct.1, if_pos (by simp), settles.slot]
      · simp only [edits.slotOf other same, List.mem_cons, same, false_or]
    · have unchanged : settle places a id = a := by
        simp only [settle, registered, Bool.false_eq_true, ↓reduceIte]
      rw [unchanged]
      obtain ⟨config, alignment, image, tableBuffer, retired, repackRequest, repack, slotOf, later⟩ :=
        ih distinct.2 registry
      refine ⟨config, alignment, image, tableBuffer, retired, repackRequest, repack, ?_, later⟩
      intro other
      rw [slotOf]
      by_cases same : other = id
      · subst same
        rw [if_neg distinct.1, if_pos (by simp), settledSlot, if_neg registered]
      · simp only [List.mem_cons, same, false_or]

/-- The slot of an id with data and a plan. -/
theorem settledSlot_of_planned {s : Slot} {t : Texture} {p : Placement} (registered : s.isRegistered = true)
    (texture : s.texture = some t) (planned : places.get? id = some p) :
    settledSlot places id s = { s with place := some p }.uploaded := by
  rw [settledSlot, if_pos registered, texture, planned]

/-- Showing the image of a repack makes the planned places those of the ids. -/
theorem place_settledSlot {buffer : Option PixelBuffer} {s : Slot} {p : Placement} (sound : s.Sound buffer)
    (placed : (settledSlot places id s).place = some p) : places.get? id = some p := by
  unfold settledSlot at placed
  split at placed
  · split at placed
    · rename_i planned
      rw [planned]
      exact placed
    · cases placed
    · cases placed
  · rename_i unregistered
    exact absurd (sound.registered (sound.loaded (by rw [placed]; rfl))) unregistered

/-- What an atlas is once it shows the image of a repack. -/
structure Adopts (accepted : Nat → Option PixelBuffer) (r : Repack) (a b : Atlas) : Prop where
  config : b.config = a.config
  alignment : b.alignment = a.alignment
  image : b.image = r.image
  tableBuffer : b.tableBuffer = a.tableBuffer
  retired : b.retired = a.retired ++ [a.image.handle]
  repack : b.repack = none
  slotOf : ∀ id, b.slot id = settledSlot r.places id (a.slot id)
  registry : Registry accepted b.config.maxTextureId b.slots b.entries b.freeIds b.nextId
  packed : 0 < b.image.capacity.side → PlacesSound b.placement? b.image.capacity →
    Packed b.placement? b.bins b.image.capacity

theorem adopts_adopt (registry : Registry accepted a.config.maxTextureId a.slots a.entries a.freeIds a.nextId)
    (r : Repack) : Adopts accepted r a (a.adopt r) := by
  have settles : SettlesAll accepted r.places (List.range a.slots.size) _ _ :=
    settlesAll_foldl List.nodup_range
      (a := { a with image := r.image, retired := a.retired ++ [a.image.handle], repack := none }) registry
  exact
    { config := settles.config
      alignment := settles.alignment
      image := settles.image
      tableBuffer := settles.tableBuffer
      retired := settles.retired
      repack := settles.repack
      slotOf := by
        intro id
        have atId := settles.slotOf id
        split at atId
        · exact atId
        · rename_i outside
          rw [List.mem_range, Nat.not_lt] at outside
          have empty : a.slot id = {} := slot_of_le outside
          rw [empty]
          exact atId.trans empty
      registry := settles.registry
      packed := Packed.rebuild }

/-- The slot that a valid id has once the image of a repack is shown. -/
theorem Sound.planned {r : Repack} (sound : Sound tracked accepted a live todo) (running : a.repack = some r)
    (isTracked : tracked id) : ∃ t p, (a.slot id).texture = some t ∧ r.Plans a.config.padding live todo id t p ∧
      settledSlot r.places id (a.slot id) = { a.slot id with place := some p }.uploaded := by
  have valid := sound.valid_of_running running id isTracked
  have slotSound : (a.slot id).Sound (accepted id) := sound.registry.sound id
  obtain ⟨t, texture⟩ := Option.isSome_iff_exists.mp (slotSound.texture_of_valid valid)
  obtain ⟨p, plans⟩ := (sound.content id isTracked).planned r t running valid texture
  exact ⟨t, p, texture, plans, settledSlot_of_planned (Slot.isRegistered_of_valid valid) texture plans.planned⟩

/-- A texture that a ready repack holds at its place is shown there in the image of the repack. -/
theorem Repack.Plans.content {padding : Nat} {s : Slot} {t : Texture} {p : Placement} {r : Repack}
    (plans : r.Plans padding live [] id t p) (ready : r.progress = .ready) (texture : s.texture = some t) :
    Content padding r.image.handle none live [] id { s with place := some p }.uploaded := by
  have holds := plans.holds.resolve_left fun draining => by simp [ready] at draining
  refine ⟨?_, ?_, fun _ _ running => by cases running⟩
  · intro u q isTexture placed
    cases texture.symm.trans isTexture
    cases placed
    exact plans.fits
  · intro u q _ isTexture placed
    cases texture.symm.trans isTexture
    cases placed
    exact holds

/-- The image of a repack that is ready becomes the live one. -/
theorem Sound.adopt {r : Repack} (sound : Sound tracked accepted a live []) (running : a.repack = some r)
    (ready : r.progress = .ready) : Sound tracked accepted (a.adopt r) live [] := by
  have repack := sound.repack r running
  have adopts := adopts_adopt sound.registry r
  generalize a.adopt r = b at adopts
  have slots : ∀ id, tracked id → ∃ t p, (a.slot id).texture = some t ∧ r.Plans a.config.padding live [] id t p ∧
      b.slot id = { a.slot id with place := some p }.uploaded := by
    intro id isTracked
    rw [adopts.slotOf]
    exact sound.planned running isTracked
  exact
    { image := adopts.image ▸ repack.tracked
      retired := by
        rw [adopts.retired, adopts.image]
        intro handle member
        rcases List.mem_append.mp member with earlier | last
        · exact ⟨(sound.retired handle earlier).1, fun same => repack.kept (same ▸ earlier)⟩
        · cases List.mem_singleton.mp last
          obtain ⟨_, tracks⟩ := sound.image
          exact ⟨tracks.known, repack.apart.symm⟩
      repack := by
        intro other isOther
        cases adopts.repack.symm.trans isOther
      table := by
        rw [adopts.tableBuffer, adopts.config]
        exact sound.table
      aligned := by
        rw [adopts.alignment]
        exact sound.aligned
      alignment_pos := by
        rw [adopts.alignment]
        exact sound.alignment_pos
      packed := by
        obtain ⟨_, tracks⟩ := repack.tracked
        apply adopts.packed
        all_goals rw [adopts.image]
        · exact pos_of_mem_allowedSides tracks.allowed
        apply repack.places.mono (Capacity.Le.refl _)
        intro id p placed
        rw [show b.placement? id = (b.slot id).place from rfl, adopts.slotOf] at placed
        exact place_settledSlot (sound.registry.sound id) placed
      usable := by
        rw [adopts.config]
        exact sound.usable
      registry := adopts.registry
      steady := by
        apply Or.inr
        intro id isTracked
        obtain ⟨_, _, _, _, settled⟩ := slots id isTracked
        rw [settled]
        rfl
      content := by
        intro id isTracked
        obtain ⟨t, p, texture, plans, settled⟩ := slots id isTracked
        rw [adopts.config, adopts.image, adopts.repack, settled]
        exact plans.content ready texture }

theorem mem_repackItems {t : Texture} (texture : (a.slot id).texture = some t) :
    ⟨id, t.width + 2 * a.config.padding, t.height + 2 * a.config.padding⟩ ∈ a.repackItems := by
  have bound : id < a.slots.size := by
    by_cases inside : id < a.slots.size
    · exact inside
    · rw [slot_of_le (Nat.not_lt.mp inside)] at texture
      cases texture
  rw [repackItems, List.mem_mergeSort, List.mem_filterMap]
  exact ⟨id, List.mem_range.mpr bound, by rw [texture]; rfl⟩

theorem nodup_repackItems (a : Atlas) : (a.repackItems.map (·.id)).Nodup := by
  rw [repackItems]
  apply ((List.mergeSort_perm _ _).map Item.id).nodup_iff.mpr
  rw [List.Nodup, List.pairwise_map, List.pairwise_filterMap]
  apply List.nodup_range.imp
  intro first second distinct item isItem other isOther
  obtain ⟨_, _, rfl⟩ := Option.map_eq_some_iff.mp isItem
  obtain ⟨_, _, rfl⟩ := Option.map_eq_some_iff.mp isOther
  exact distinct

/-- The sides that a repack tries are allowed ones. -/
theorem side_mem_of_capacities {mode : RepackMode} {present c : Capacity} {maxLayers : Nat}
    (allowed : present.side ∈ allowedSides) (member : c ∈ mode.capacities present maxLayers) :
    c.side ∈ allowedSides := by
  cases mode with
  | tightest =>
    obtain ⟨side, inSides, inLayers⟩ := List.mem_flatMap.mp member
    exact (mem_capacitiesOf inLayers).1 ▸ inSides
  | keepCapacity =>
    cases List.mem_singleton.mp member
    exact allowed
  | allowGrowth =>
    rcases List.mem_append.mp member with deeper | longer
    · exact (mem_capacitiesOf deeper).1 ▸ allowed
    · obtain ⟨side, above, inLayers⟩ := List.mem_flatMap.mp longer
      exact (mem_capacitiesOf inLayers).1 ▸ (mem_sidesAbove.mp above).1

/-- A repack starts with a plan for all textures there are. -/
theorem Sound.start {r : Repack} (sound : Sound tracked accepted a live todo)
    (repack : r.Sound a.config.maxTextureId a.image.handle a.retired live)
    (valid : ∀ id, tracked id → (a.slot id).status = .valid)
    (plans : ∀ id t, (a.slot id).texture = some t → ∃ p, r.Plans a.config.padding live todo id t p) :
    Sound tracked accepted { a with repackRequest := none, repack := some r } live todo :=
  { sound with
    repack := by
      intro other isOther
      cases isOther
      exact repack
    steady := Or.inr valid
    content := by
      intro id isTracked
      have content := sound.content id isTracked
      refine ⟨content.fits, content.shown, ?_⟩
      intro other t isOther _ texture
      cases isOther
      exact plans id t texture }

namespace Frame

variable {promised : Submission → Nat → Prop} {waiting : List Submission} {f : Frame}

theorem adoptReady_keeps (f : Frame) : f.adoptReady.device = f.device ∧ f.adoptReady.staging = f.staging ∧
    f.adoptReady.commands = f.commands := by
  unfold adoptReady
  split
  · exact ⟨rfl, rfl, rfl⟩
  · split
    · unfold announce
      split <;> exact ⟨rfl, rfl, rfl⟩
    · exact ⟨rfl, rfl, rfl⟩

theorem adoptReady_of_idle (idle : f.atlas.repack = none) : f.adoptReady = f := by
  rw [adoptReady, idle]

theorem Sound.adoptReady (sound : f.Sound promised waiting tracked accepted []) :
    f.adoptReady.Sound promised waiting tracked accepted [] := by
  unfold Frame.adoptReady
  split
  · exact sound
  · rename_i r running
    split
    · rename_i ready
      exact (sound.modifyAtlas fun live atlas => atlas.adopt running ready).announce _
    · exact sound

/-- The image of a plan that places all textures is new, and all ids are queued for it. -/
theorem Sound.startPlanned {plan : Plan} {c : Capacity} {mode : RepackMode}
    (sound : f.Sound promised waiting tracked accepted [])
    (asked : f.atlas.repackRequest = some mode) (planned : planFor? f.atlas.repackItems c = some plan)
    (allowed : c.side ∈ allowedSides) :
    (f.startPlanned f.atlas.repackItems plan).Sound promised waiting tracked accepted [] := by
  simp only [Frame.startPlanned]
  split
  · exact sound.announce _
  · rename_i handle device created
    obtain ⟨rfl, rfl⟩ := Device.eq_of_createImage created
    obtain ⟨sameCapacity, places⟩ := placesSound_of_planFor? planned
    obtain ⟨live, reaches, atlas⟩ := sound
    have valid : ∀ id, tracked id → (f.atlas.slot id).status = .valid :=
      atlas.steady.resolve_left fun calm => by cases asked.symm.trans calm.unasked
    obtain ⟨_, tracks⟩ := atlas.image
    have isNew : (live.added (.create plan.capacity.side plan.capacity.layers)).Tracks
        ⟨live.handles + 1, plan.capacity, .undefined⟩ _ := Device.tracks_added live (sameCapacity ▸ allowed)
    rw [reaches.handles] at isNew
    obtain ⟨queue, waits⟩ := (Queue.sound_create f.atlas.config.maxTextureId).pushAll (f.atlas.repackItems.map (·.id))
    rw [List.foldl_map] at queue waits
    refine Sound.announce ⟨_, (reaches.create (.create plan.capacity.side plan.capacity.layers)).modifyAtlas _, ?_⟩ _
    refine (atlas.added _).start ?_ valid ?_
    · exact
        { tracked := ⟨_, isNew⟩
          apart := by
            have known := tracks.known
            rw [reaches.handles] at known
            exact Nat.ne_of_gt (Nat.lt_succ_of_le known)
          kept := by
            intro member
            have known := (atlas.retired _ member).1
            rw [reaches.handles] at known
            exact Nat.not_succ_le_self _ known
          places := sameCapacity ▸ places
          queue := queue }
    · intro id t texture
      have item := mem_repackItems texture
      obtain ⟨p, isPlace, width, height⟩ := get?_of_planFor? planned (nodup_repackItems f.atlas) _ item
      have bound : id < f.atlas.config.maxTextureId := by
        have slotSound : (f.atlas.slot id).Sound (accepted id) := atlas.registry.sound id
        rw [← atlas.registry.slots_size]
        exact lt_of_isRegistered (slotSound.registered (by rw [texture]; rfl))
      exact ⟨p, isPlace, ⟨width, height⟩,
        Or.inl ⟨rfl, Or.inr (waits id bound (Or.inl (List.mem_map.mpr ⟨_, item, rfl⟩)))⟩⟩

theorem Sound.startRequested (sound : f.Sound promised waiting tracked accepted []) :
    f.startRequested.Sound promised waiting tracked accepted [] := by
  have drops : ∀ live, Atlas.Sound tracked accepted f.atlas live [] →
      Atlas.Sound tracked accepted { f.atlas with repackRequest := none } live [] :=
    fun live atlas => { atlas with steady := atlas.steady.imp_left fun calm => { calm with unasked := rfl } }
  unfold Frame.startRequested
  split
  · rename_i mode _ asked
    unfold Frame.startRepack
    dsimp only
    split
    · exact sound.modifyAtlas drops
    · rename_i item rest isItems
      split
      · exact (sound.modifyAtlas drops).announce _
      · rename_i plan found
        obtain ⟨c, isTried, planned⟩ := List.exists_of_findSome?_eq_some found
        rw [← isItems] at planned ⊢
        exact sound.startPlanned asked planned (side_mem_of_capacities sound.allowed isTried)
  · exact sound

end Frame

end TextureLoom.Atlas
