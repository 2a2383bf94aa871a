import TextureLoom.Proofs.Atlas.Editing
import TextureLoom.Proofs.Atlas.Reaching

set_option autoImplicit false

namespace TextureLoom.Atlas

open Bytes

section

variable {live after : Device} {staging : Staging} {commands : List Command} {touched : List Nat}
  {img later : OwnedImage} {i j : DeviceImage} {p q : Placement}

theorem Device.sameAt_of_get? {handle : Nat} (same : after.images.get? handle = live.images.get? handle)
    (p : Placement) : live.SameAt handle after handle p := by
  intro x y _
  rw [Device.texel?, same, Device.texel?]

theorem Runs.sameAt (runs : Runs staging commands touched live after) {handle : Nat} (outside : handle ∉ touched)
    (p : Placement) : live.SameAt handle after handle p := Device.sameAt_of_get? (runs.images handle outside) p

theorem Device.Tracks.sameAt (before : live.Tracks img i) (tracks : after.Tracks later j)
    (same : ∀ x y, p.rect.Covers x y → j.texel? p.layer x y = i.texel? p.layer x y) :
    live.SameAt img.handle after later.handle p := by
  intro x y covers
  rw [Device.texel?_of_get? tracks.found, Device.texel?_of_get? before.found]
  exact same x y covers

/-- An upload to a place leaves what is at a place apart from it. -/
theorem Device.Tracks.sameAt_writeRect {start : Nat} (before : live.Tracks img i)
    (tracks : after.Tracks img (Device.writeRect staging start p.layer p.x p.y p.width p.height i))
    (within : p.Within img.capacity) (apart : q.Apart p) : live.SameAt img.handle after img.handle q := by
  apply before.sameAt tracks
  intro x y covers
  refine texel?_writeRect_outside before.small ?_ ?_
  · rw [before.side]
    exact within.columns
  · by_cases sameLayer : q.layer = p.layer
    · have outside := apart sameLayer x y covers
      simp only [Rect.Covers, Rect.right, Rect.bottom, Placement.rect] at outside
      omega
    · exact Or.inl sameLayer

/-- An upload of the padded texels of a texture that a place fits. -/
theorem Device.Tracks.holds_writeRect {start padding : Nat} {t : Texture} (before : live.Tracks img i)
    (tracks : after.Tracks img (Device.writeRect staging start p.layer p.x p.y p.width p.height i))
    (within : p.Within img.capacity) (fits : p.Fits t padding)
    (inside : start + p.width * p.height * 4 ≤ staging.size)
    (staged : ∀ k < p.width * p.height * 4, byteAt staging.bytes (start + k) = byteAt (t.padded padding) k) :
    after.Holds img.handle p t padding := by
  intro column inColumns row inRows
  have layers : p.layer < i.layers := before.layers ▸ within.layer
  have columns : p.x + p.width ≤ i.side := before.side ▸ within.columns
  have rows : p.y + p.height ≤ i.side := before.side ▸ within.rows
  rw [Device.texel?_of_get? tracks.found,
    texel?_writeRect before.wellFormed before.small layers columns rows inside inColumns inRows]
  congr 1
  apply texelAt_congr
  intro k channel
  have index : (row * p.width + column) * 4 + k < p.width * p.height * 4 := by
    have last := row_bound inRows inColumns
    rw [Nat.mul_comm p.height] at last
    omega
  rw [Nat.add_assoc, staged _ index, fits.width]
  exact Texture.byteAt_padded t (fits.width ▸ inColumns) (fits.height ▸ inRows) channel

end

variable {tracked : Nat → Prop} {accepted : Nat → Option PixelBuffer} {a : Atlas} {live after : Device}
  {todo : List Nat} {id : Nat} {staging : Staging} {commands : List Command} {touched : List Nat}

/-- The texels of an id are there if they are at its place and stay in the image of a repack. -/
theorem Content.reshow {padding image later : Nat} {repack : Option Repack} {s : Slot}
    (content : Content padding image repack live todo id s)
    (shown : ∀ t p, s.status = .valid → s.texture = some t → s.place = some p → after.Holds later p t padding)
    (planned : ∀ r p, repack = some r → r.places.get? id = some p →
      live.SameAt r.image.handle after r.image.handle p) :
    Content padding later repack after todo id s where
  fits := content.fits
  shown := shown
  planned := by
    intro r t running valid isTexture
    obtain ⟨p, plans⟩ := content.planned r t running valid isTexture
    exact ⟨p, plans.planned, plans.fits,
      plans.holds.imp_right fun holds => holds.sameAt (planned r p running plans.planned)⟩

/-- The texels of an id stay if they do at its place in both images. -/
theorem Content.redraw {padding image later : Nat} {repack : Option Repack} {s : Slot}
    (content : Content padding image repack live todo id s)
    (shown : ∀ p, s.place = some p → live.SameAt image after later p)
    (planned : ∀ r p, repack = some r → r.places.get? id = some p →
      live.SameAt r.image.handle after r.image.handle p) :
    Content padding later repack after todo id s :=
  content.reshow (fun t p valid isTexture placed => (content.shown t p valid isTexture placed).sameAt (shown p placed))
    planned

/-- The texels of an id stay if the image of a repack is turned. -/
theorem Content.reimage {padding image : Nat} {r : Repack} {s : Slot} {turned : OwnedImage}
    (content : Content padding image (some r) live todo id s)
    (shown : ∀ p, live.SameAt image after image p)
    (planned : ∀ p, live.SameAt r.image.handle after turned.handle p) :
    Content padding image (some { r with image := turned }) after todo id s where
  fits := content.fits
  shown := fun t p valid isTexture placed => (content.shown t p valid isTexture placed).sameAt (shown p)
  planned := by
    intro other t running valid isTexture
    cases running
    obtain ⟨p, plans⟩ := content.planned r t rfl valid isTexture
    exact ⟨p, plans.planned, plans.fits, plans.holds.imp_right fun holds => holds.sameAt (planned p)⟩

/-- The image is the live one or that of a running repack. -/
def Uses (a : Atlas) (handle : Nat) : Prop := handle = a.image.handle ∨ ∃ r, a.repack = some r ∧ handle = r.image.handle

/-- A device that keeps the images in use and the table is as good. -/
theorem Sound.carry (sound : Sound tracked accepted a live todo) (handles : live.handles ≤ after.handles)
    (alignment : after.alignment = live.alignment) (buffers : after.buffers = live.buffers)
    (images : ∀ handle ≤ live.handles, a.Uses handle → after.images.get? handle = live.images.get? handle) :
    Sound tracked accepted a after todo := by
  obtain ⟨i, tracks⟩ := sound.image
  have liveSame := images _ tracks.known (Or.inl rfl)
  have repackSame : ∀ r, a.repack = some r → after.images.get? r.image.handle = live.images.get? r.image.handle := by
    intro r running
    obtain ⟨_, repackTracks⟩ := (sound.repack r running).tracked
    exact images _ repackTracks.known (Or.inr ⟨r, running, rfl⟩)
  exact
    { sound with
      image := ⟨i, tracks.carry handles liveSame⟩
      retired := fun handle member => (sound.retired handle member).imp_left fun known => Nat.le_trans known handles
      repack := by
        intro r running
        have repack := sound.repack r running
        obtain ⟨j, repackTracks⟩ := repack.tracked
        exact { repack with tracked := ⟨j, repackTracks.carry handles (repackSame r running)⟩ }
      table := ⟨Nat.le_trans sound.table.known handles, buffers ▸ sound.table.sized⟩
      aligned := alignment ▸ sound.aligned
      content := by
        intro id isTracked
        exact (sound.content id isTracked).redraw (fun p _ => Device.sameAt_of_get? liveSame p) fun r p running _ =>
          Device.sameAt_of_get? (repackSame r running) p }

/-- Commands that change images, the atlas knowing their layouts. -/
theorem Sound.redraw {image : OwnedImage} {repack : Option Repack} (sound : Sound tracked accepted a live todo)
    (runs : Runs staging commands touched live after) (handle : image.handle = a.image.handle)
    (capacity : image.capacity = a.image.capacity) (tracks : ∃ i, after.Tracks image i)
    (running : ∀ r, repack = some r → r.Sound a.config.maxTextureId a.image.handle a.retired after)
    (idle : a.repack = none → repack = none)
    (content : ∀ id, tracked id → Content a.config.padding a.image.handle repack after todo id (a.slot id)) :
    Sound tracked accepted { a with image, repack } after todo where
  image := tracks
  retired := by
    intro old member
    rw [runs.handles, handle]
    exact sound.retired old member
  repack := by
    intro r isRepack
    rw [handle]
    exact running r isRepack
  table := sound.table.of_runs runs
  aligned := runs.alignment ▸ sound.aligned
  alignment_pos := sound.alignment_pos
  packed := by
    rw [capacity]
    exact sound.packed
  usable := sound.usable
  registry := sound.registry
  steady := sound.steady.imp_left fun calm => { calm with idle := idle calm.idle }
  content := by
    rw [handle]
    exact content

theorem Repack.Sound.of_runs {count image : Nat} {retired : List Nat} {r : Repack}
    (sound : r.Sound count image retired live) (runs : Runs staging commands touched live after)
    (outside : r.image.handle ∉ touched) : r.Sound count image retired after where
  tracked := by
    obtain ⟨i, tracks⟩ := sound.tracked
    exact ⟨i, tracks.of_runs runs outside⟩
  apart := sound.apart
  kept := sound.kept
  places := sound.places
  queue := sound.queue

theorem Repack.Sound.reimage {count image : Nat} {retired : List Nat} {r : Repack} {turned : OwnedImage}
    {i : DeviceImage} (sound : r.Sound count image retired live) (tracks : after.Tracks turned i)
    (handle : turned.handle = r.image.handle) (capacity : turned.capacity = r.image.capacity) :
    Repack.Sound count image retired after { r with image := turned } where
  tracked := ⟨i, tracks⟩
  apart := handle ▸ sound.apart
  kept := handle ▸ sound.kept
  places := by
    rw [capacity]
    exact sound.places
  queue := sound.queue

/-- What a staged range has to hold to be uploaded to a place. -/
structure Uploads (a : Atlas) (staging : Staging) (start : Nat) (p : Placement) (t : Texture) : Prop where
  aligned : a.alignment ∣ start
  inside : start + p.width * p.height * 4 ≤ staging.size
  staged : p.Fits t a.config.padding →
    ∀ k < p.width * p.height * 4, byteAt staging.bytes (start + k) = byteAt (t.padded a.config.padding) k

/-- The texture of an id is uploaded to its place in the live image. -/
theorem Sound.uploadLive {start : Nat} {p : Placement} {t : Texture} (sound : Sound tracked accepted a live todo)
    (texture : (a.slot id).texture = some t) (placed : (a.slot id).place = some p)
    (ready : a.image.layout = .transferTarget) (uploads : Uploads a staging start p t) :
    ∃ after, Runs staging [Frame.uploadCommand a.image start p] [a.image.handle] live after ∧
      Sound tracked accepted a after todo ∧
      (p.Fits t a.config.padding → after.Holds a.image.handle p t a.config.padding) := by
  obtain ⟨i, tracks⟩ := sound.image
  have within : p.Within a.image.capacity := sound.packed.sound.within id p placed
  obtain ⟨after, runs, written⟩ :=
    tracks.upload ready within (Nat.dvd_trans sound.aligned uploads.aligned) uploads.inside
  have holds := fun fits => tracks.holds_writeRect written within fits uploads.inside (uploads.staged fits)
  have repackOutside : ∀ r, a.repack = some r → r.image.handle ∉ [a.image.handle] := by
    intro r running inside
    exact (sound.repack r running).apart (List.mem_singleton.mp inside)
  refine ⟨after, runs, ?_, holds⟩
  refine sound.redraw runs rfl rfl ⟨_, written⟩ ?_ (fun none => none) ?_
  · intro r running
    exact (sound.repack r running).of_runs runs (repackOutside r running)
  · intro other isTracked
    have content := sound.content other isTracked
    have planned := fun r q (running : a.repack = some r) (_ : r.places.get? other = some q) =>
      runs.sameAt (repackOutside r running) q
    by_cases same : other = id
    · subst same
      refine content.reshow ?_ planned
      intro other q _ isTexture isPlaced
      cases texture.symm.trans isTexture
      cases placed.symm.trans isPlaced
      exact holds (content.fits t p texture placed)
    · refine content.redraw ?_ planned
      intro q isPlaced
      exact tracks.sameAt_writeRect written within (sound.packed.sound.apart other id q p same isPlaced placed)

/-- The texture of an id is uploaded to its place in the image of a running repack. -/
theorem Sound.uploadRepack {start : Nat} {r : Repack} {p : Placement} {t : Texture}
    (sound : Sound tracked accepted a live todo) (running : a.repack = some r)
    (texture : (a.slot id).texture = some t) (planned : r.places.get? id = some p)
    (ready : r.image.layout = .transferTarget) (uploads : Uploads a staging start p t) :
    ∃ after, Runs staging [Frame.uploadCommand r.image start p] [r.image.handle] live after ∧
      Sound tracked accepted a after todo ∧
      (p.Fits t a.config.padding → after.Holds r.image.handle p t a.config.padding) := by
  have repack := sound.repack r running
  obtain ⟨i, tracks⟩ := repack.tracked
  have within : p.Within r.image.capacity := repack.places.within id p planned
  obtain ⟨after, runs, written⟩ :=
    tracks.upload ready within (Nat.dvd_trans sound.aligned uploads.aligned) uploads.inside
  have holds := fun fits => tracks.holds_writeRect written within fits uploads.inside (uploads.staged fits)
  have liveOutside : a.image.handle ∉ [r.image.handle] := by
    intro inside
    exact repack.apart (List.mem_singleton.mp inside).symm
  obtain ⟨j, liveTracks⟩ := sound.image
  refine ⟨after, runs, ?_, holds⟩
  refine sound.redraw runs rfl rfl ⟨j, liveTracks.of_runs runs liveOutside⟩ ?_ (fun none => none) ?_
  · intro other isOther
    cases running.symm.trans isOther
    exact { repack with tracked := ⟨_, written⟩ }
  · intro other isTracked
    have content := sound.content other isTracked
    refine ⟨content.fits, fun t q valid isTexture placed =>
      (content.shown t q valid isTexture placed).sameAt (runs.sameAt liveOutside q), ?_⟩
    intro r' t' isRunning valid isTexture
    cases running.symm.trans isRunning
    obtain ⟨q, plans⟩ := content.planned r t' running valid isTexture
    refine ⟨q, plans.planned, plans.fits, plans.holds.imp_right fun held => ?_⟩
    by_cases same : other = id
    · subst same
      cases planned.symm.trans plans.planned
      cases texture.symm.trans isTexture
      exact holds plans.fits
    · exact held.sameAt (tracks.sameAt_writeRect written within
        (repack.places.apart other id q p same plans.planned planned))

namespace Frame

/-- The frame leads to a device on which its atlas is sound. -/
def Sound (promised : Submission → Nat → Prop) (waiting : List Submission) (tracked : Nat → Prop)
    (accepted : Nat → Option PixelBuffer) (todo : List Nat) (f : Frame) : Prop :=
  ∃ live, f.Reaches promised waiting live ∧ Atlas.Sound tracked accepted f.atlas live todo

variable {promised : Submission → Nat → Prop} {waiting : List Submission} {f : Frame}

theorem Sound.modifyAtlas {later : List Nat} (sound : f.Sound promised waiting tracked accepted todo)
    {change : Atlas → Atlas}
    (keeps : ∀ live, Atlas.Sound tracked accepted f.atlas live todo →
      Atlas.Sound tracked accepted (change f.atlas) live later) :
    (f.modifyAtlas change).Sound promised waiting tracked accepted later := by
  obtain ⟨live, reaches, atlas⟩ := sound
  exact ⟨live, reaches.modifyAtlas change, keeps live atlas⟩

@[simp] theorem announce_atlas (f : Frame) (event : Event) : (f.announce event).atlas = f.atlas := by
  unfold announce
  split <;> rfl

theorem Sound.announce (sound : f.Sound promised waiting tracked accepted todo) (event : Event) :
    (f.announce event).Sound promised waiting tracked accepted todo := by
  obtain ⟨live, reaches, atlas⟩ := sound
  exact ⟨live, reaches.announce event, by rwa [announce_atlas]⟩

theorem within_turn {img : OwnedImage} {handles used : Nat} (known : img.handle ≤ handles) (layout : Layout) :
    ∀ c ∈ (img.turn layout).2, c.Within handles used := by
  intro c member
  unfold OwnedImage.turn at member
  split at member
  · cases member
  · cases List.mem_singleton.mp member
    exact known

theorem Sound.turnLive (sound : f.Sound promised waiting tracked accepted todo) (layout : Layout) :
    (f.turnLive layout).Sound promised waiting tracked accepted todo := by
  obtain ⟨live, reaches, atlas⟩ := sound
  obtain ⟨i, tracks⟩ := atlas.image
  obtain ⟨after, runs, turned⟩ := tracks.turn f.staging layout
  refine ⟨after, (reaches.modifyAtlas _).record runs (within_turn (reaches.handles ▸ tracks.known) layout), ?_⟩
  have repackOutside : ∀ r, f.atlas.repack = some r → r.image.handle ∉ [f.atlas.image.handle] := by
    intro r running inside
    exact (atlas.repack r running).apart (List.mem_singleton.mp inside)
  refine atlas.redraw runs (OwnedImage.turn_handle _ _) (OwnedImage.turn_capacity _ _) ⟨_, turned⟩ ?_ id ?_
  · intro r running
    exact (atlas.repack r running).of_runs runs (repackOutside r running)
  · intro id isTracked
    refine (atlas.content id isTracked).redraw ?_ ?_
    · intro p _
      have same := tracks.sameAt (p := p) turned fun _ _ _ => rfl
      rwa [OwnedImage.turn_handle] at same
    · intro r p running _
      exact runs.sameAt (repackOutside r running) p

theorem Sound.turnRepack (sound : f.Sound promised waiting tracked accepted todo) (layout : Layout) :
    (f.turnRepack layout).Sound promised waiting tracked accepted todo := by
  unfold Frame.turnRepack
  split
  · exact sound
  · rename_i r running
    obtain ⟨live, reaches, atlas⟩ := sound
    have repack := atlas.repack r running
    obtain ⟨i, tracks⟩ := repack.tracked
    obtain ⟨after, runs, turned⟩ := tracks.turn f.staging layout
    have liveOutside : f.atlas.image.handle ∉ [r.image.handle] := by
      intro inside
      exact repack.apart (List.mem_singleton.mp inside).symm
    refine ⟨after, (reaches.modifyAtlas _).record runs (within_turn (reaches.handles ▸ tracks.known) layout), ?_⟩
    obtain ⟨j, liveTracks⟩ := atlas.image
    refine atlas.redraw runs rfl rfl ⟨j, liveTracks.of_runs runs liveOutside⟩ ?_ ?_ ?_
    · intro other isOther
      cases isOther
      exact repack.reimage turned (OwnedImage.turn_handle _ _) (OwnedImage.turn_capacity _ _)
    · intro none
      rw [running] at none
      cases none
    · intro id isTracked
      have content := atlas.content id isTracked
      rw [running] at content
      exact content.reimage (runs.sameAt liveOutside) fun p => tracks.sameAt turned fun _ _ _ => rfl

theorem turnLive_layout (f : Frame) (layout : Layout) : (f.turnLive layout).atlas.image.layout = layout :=
  OwnedImage.turn_layout _ _

end Frame

end TextureLoom.Atlas
