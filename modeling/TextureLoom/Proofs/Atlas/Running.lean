import TextureLoom.Proofs.Atlas.Flushing

set_option autoImplicit false

namespace TextureLoom.Atlas

variable {promised fewer : Submission → Nat → Prop} {tracked : Nat → Prop} {accepted : Nat → Option PixelBuffer}
  {a : Atlas} {live : Device} {id : Nat}

/-- Not all ids are valid, so none is about to be moved if all of them are tracked. -/
theorem Sound.calm (sound : Sound tracked accepted a live []) (all : ∀ id, tracked id) :
    Calm tracked a.repack a.repackRequest := by
  apply sound.steady.resolve_right
  intro valid
  have unused : (a.slot a.nextId).status = .unused := sound.registry.unused a.nextId (Nat.le_refl _)
  cases unused.symm.trans (valid a.nextId (all _))

/-- A tracked id that is valid is where its buffer is to be drawn from. -/
theorem Sound.keeps {commands : List Command} {number : Nat} (sound : Sound tracked accepted a live [])
    (isTracked : tracked id) (valid : (a.slot id).status = .valid) :
    Submission.Keeps ⟨number, a, accepted, commands⟩ live id := by
  have slotSound : (a.slot id).Sound (accepted id) := sound.registry.sound id
  obtain ⟨p, placed⟩ := Option.isSome_iff_exists.mp (slotSound.placed valid)
  obtain ⟨t, texture⟩ := Option.isSome_iff_exists.mp (slotSound.texture_of_valid valid)
  obtain ⟨buffer, isBuffer, reads⟩ := slotSound.reads t texture
  obtain ⟨isId, unreserved⟩ := sound.usable id buffer isBuffer
  have content := sound.content id isTracked
  have fits := content.fits t p texture placed
  refine ⟨?_, sound.registry.marked id valid, buffer, p, isBuffer, placed, reads.width ▸ fits.width,
    reads.height ▸ fits.height, ?_⟩
  · simp [status?, ignores, isId, valid]
    omega
  · intro i column j row
    have holds := content.shown t p valid texture placed i column j row
    rw [reads.paddedTexel] at holds
    exact holds

/-- An id that is shown while no repack runs may be tracked from there on. -/
theorem Sound.track (sound : Sound tracked accepted a live []) (idle : a.repack = none)
    (valid : (a.slot id).status = .valid) (shown : Shows live a accepted id) : Sound (· = id) accepted a live [] := by
  obtain ⟨buffer, place, isBuffer, isPlaced, width, height, texels⟩ := shown
  have reads : ∀ t, (a.slot id).texture = some t → t.Reads buffer := by
    intro t texture
    have slotSound : (a.slot id).Sound (accepted id) := sound.registry.sound id
    obtain ⟨other, isOther, reads⟩ := slotSound.reads t texture
    cases isBuffer.symm.trans isOther
    exact reads
  exact
    { sound with
      steady := Or.inr (by rintro _ rfl; exact valid)
      content := by
        rintro _ rfl
        refine ⟨?_, ?_, fun _ _ running => by cases idle.symm.trans running⟩
        · intro t p texture placed
          cases isPlaced.symm.trans placed
          have reads := reads t texture
          exact ⟨reads.width.symm ▸ width, reads.height.symm ▸ height⟩
        · intro t p _ texture placed i column j row
          cases isPlaced.symm.trans placed
          rw [(reads t texture).paddedTexel]
          exact texels i column j row }

/-- Only tracked ids are promised by the lists of flushes from `first` on and, where all ids are tracked, only those
that are valid. -/
def Follows (tracked : Nat → Prop) (first : Nat) (promised : Submission → Nat → Prop) : Prop :=
  ∀ s, first ≤ s.number → ∀ id, promised s id →
    tracked id ∧ ((∀ other, tracked other) → (s.after.slot id).status = .valid)

/-- If all ids are tracked no repack is asked for, and otherwise no call is about the data of one that is. -/
def Action.Spares (tracked : Nat → Prop) (action : Action) : Prop :=
  (∀ id, tracked id) ∧ (∀ mode, action ≠ .requestRepack mode) ∨
    (∃ id, ¬tracked id) ∧ ∀ id, tracked id → ¬action.Names id

namespace World

variable {w last : World} {action : Action} {actions : List Action}

/-- The lists that wait are performed in order and keep their promises, and lead to a device that the atlas is sound
on. -/
structure Sound (promised : Submission → Nat → Prop) (tracked : Nat → Prop) (w : World) : Prop where
  frame : w.frame.Sound promised w.waiting tracked w.accepted []
  numbered : ∀ s ∈ w.waiting, s.number < w.flushes

theorem flushes_le_step (w : World) (action : Action) : w.flushes ≤ (w.step action).flushes := by
  cases action with
  | flush => exact Nat.le_succ _
  | set id width height pitch bytes =>
    simp only [step]
    split
    · split <;> exact Nat.le_refl _
    · exact Nat.le_refl _
  | submit =>
    simp only [step]
    split <;> exact Nat.le_refl _
  | reserve count alignment bytes =>
    simp only [step]
    split <;> exact Nat.le_refl _
  | _ => exact Nat.le_refl _

namespace Sound

/-- A call that changes nothing but the atlas. -/
theorem call (sound : w.Sound promised tracked) {atlas : Atlas}
    (keeps : ∀ live, Atlas.Sound tracked w.accepted w.atlas live [] → Atlas.Sound tracked w.accepted atlas live []) :
    World.Sound promised tracked { w with atlas } where
  frame := by
    obtain ⟨live, reaches, atlas⟩ := sound.frame
    exact ⟨live, reaches.congr rfl rfl rfl, keeps live atlas⟩
  numbered := sound.numbered

/-- A call about the data of an id leaves the others, and is made of a tracked id only while no repack is about. -/
theorem calm_of_spares (atlas : Atlas.Sound tracked accepted a live []) (spares : action.Spares tracked)
    (named : action.Names id) (isTracked : tracked id) : Calm tracked a.repack a.repackRequest := by
  rcases spares with ⟨all, _⟩ | ⟨_, unnamed⟩
  · exact atlas.calm all
  · exact absurd named (unnamed id isTracked)

theorem valid_of_spares {mode : RepackMode} (atlas : Atlas.Sound tracked accepted a live [])
    (spares : Action.Spares tracked (.requestRepack mode)) :
    ∀ id, tracked id → (a.slot id).status = .valid := by
  rcases spares with ⟨_, unasked⟩ | ⟨⟨other, untracked⟩, _⟩
  · exact absurd rfl (unasked mode)
  · exact atlas.steady.resolve_left fun calm => untracked (calm.all other)

theorem set {width height pitch : Nat} {bytes : ByteArray} (sound : w.Sound promised tracked)
    (spares : Action.Spares tracked (.set id width height pitch bytes)) :
    (w.step (.set id width height pitch bytes)).Sound promised tracked := by
  have sets := sets_set w.atlas id width height pitch bytes
  simp only [World.step]
  generalize w.atlas.set id width height pitch bytes = result at sets
  cases sets with
  | ignored ignores =>
    simp only [ignores, ↓reduceIte]
    exact sound
  | refused e => exact sound
  | rejected e registered =>
    exact sound.call fun live atlas => atlas.reject registered (calm_of_spares atlas spares rfl)
  | loaded t notIgnored registered reads =>
    simp only [notIgnored, Bool.false_eq_true, ↓reduceIte]
    obtain ⟨live, reaches, atlas⟩ := sound.frame
    have loaded : Atlas.Sound tracked _ (w.atlas.load id t) live [] :=
      atlas.load notIgnored registered reads (calm_of_spares atlas spares rfl)
    generalize w.atlas.load id t = b at loaded
    exact ⟨⟨live, reaches.congr rfl rfl rfl, loaded⟩, sound.numbered⟩

/-- A flush adds its list behind those that wait. -/
theorem flush (frame : w.frame.flush.Sound promised w.waiting tracked w.accepted [])
    (numbered : ∀ s ∈ w.waiting, s.number < w.flushes) (follows : Follows tracked w.flushes promised) :
    (w.step .flush).Sound promised tracked := by
  rw [World.step, Atlas.flush, show Frame.mk w.atlas w.device w.staging #[] [] = w.frame from rfl]
  generalize w.frame.flush = f at frame
  obtain ⟨live, reaches, atlas⟩ := frame
  obtain ⟨middle, replays, performs⟩ := reaches.replays
  obtain ⟨i, tracks⟩ := atlas.image
  refine ⟨⟨live, ⟨⟨live, replays.append performs ?_, rfl⟩, ?_, fun c member => by cases member⟩, atlas⟩, ?_⟩
  · intro id isPromised
    obtain ⟨isTracked, valid⟩ := follows _ (Nat.le_refl _) id isPromised
    apply atlas.keeps isTracked
    rcases atlas.steady with calm | steady
    · exact valid calm.all
    · exact steady id isTracked
  · intro s member
    rcases List.mem_append.mp member with earlier | last
    · exact reaches.known s earlier
    · cases List.mem_singleton.mp last
      exact ⟨reaches.within, reaches.handles ▸ tracks.known⟩
  · intro s member
    rcases List.mem_append.mp member with earlier | last
    · exact Nat.lt_succ_of_lt (numbered s earlier)
    · cases List.mem_singleton.mp last
      exact Nat.lt_succ_self w.flushes

/-- The oldest list that waits is performed and keeps its promises. -/
theorem submit {s : Submission} {rest : List Submission} (sound : w.Sound promised tracked)
    (waits : w.waiting = s :: rest) :
    Device.Performs w.staging w.device s.commands (w.step .submit).device ∧
      (∀ id, promised s id → s.Keeps (w.step .submit).device id) ∧ (w.step .submit).Sound promised tracked := by
  obtain ⟨live, reaches, atlas⟩ := sound.frame
  obtain ⟨middle, replays, performs⟩ := reaches.replays
  have known := reaches.known
  have numbered := sound.numbered
  rw [waits] at replays known numbered
  obtain ⟨next, isNext, keeps, later⟩ := replays
  have submitted : (w.device.submit w.staging s.commands).1 = next := congrArg Prod.fst isNext.submit
  simp only [World.step, waits, submitted]
  refine ⟨isNext, keeps, ⟨live, ⟨⟨middle, later, performs⟩, ?_, fun c member => by cases member⟩, atlas⟩, ?_⟩
  · intro other member
    exact isNext.handles ▸ known other (List.mem_cons_of_mem s member)
  · intro other member
    exact numbered other (List.mem_cons_of_mem s member)

/-- The device has finished while no list waits. -/
theorem finish (sound : w.Sound promised tracked) (settled : w.waiting = []) :
    (w.step .finish).Sound promised tracked := by
  obtain ⟨live, reaches, atlas⟩ := sound.frame
  obtain ⟨middle, replays, performs⟩ := reaches.replays
  rw [settled] at replays
  obtain rfl : middle = w.device := replays
  cases performs
  refine ⟨⟨_, ⟨⟨_, ?_, rfl⟩, ?_, fun c member => by cases member⟩, atlas.deviceFinished w.staging⟩, sound.numbered⟩
  · simp only [World.step, settled]
    rfl
  · simp only [World.step, settled]
    intro s member
    cases member

/-- How much memory the device has makes no difference to what was recorded. -/
theorem limitMemory (sound : w.Sound promised tracked) (limit : Option Nat) :
    (w.step (.limitMemory limit)).Sound promised tracked := by
  obtain ⟨live, reaches, atlas⟩ := sound.frame
  obtain ⟨middle, replays, performs⟩ := reaches.replays
  cases performs
  let change : Device → Device := fun d => { d with memoryLimit := limit }
  have changed : Replays promised w.staging (change w.device) w.waiting (change live) :=
    replays.change reaches.known (fun c _ => Device.passes_memoryLimit limit) fun _ _ _ _ _ _ _ => rfl
  have carried : Atlas.Sound tracked w.accepted w.atlas { live with memoryLimit := limit } [] :=
    atlas.carry (Nat.le_refl _) rfl rfl fun _ _ _ => rfl
  exact ⟨⟨_, ⟨⟨_, changed, rfl⟩, reaches.known, fun c member => by cases member⟩, carried⟩, sound.numbered⟩

/-- What others put into the staging buffer lies behind what was recorded. -/
theorem reserve (sound : w.Sound promised tracked) (count alignment : Nat) (bytes : ByteArray) :
    (w.step (.reserve count alignment bytes)).Sound promised tracked := by
  simp only [World.step, Staging.allocate]
  rcases found : w.staging.nextRange? count alignment with _ | ⟨start, stop⟩
  · exact sound
  · have range : w.staging.IsRange count (max alignment 1) start stop := by
      refine Staging.isRange_of_nextRange? (by omega) ?_
      rw [← found, Staging.nextRange?, Staging.nextRange?, Nat.max_assoc, Nat.max_self]
    obtain ⟨live, reaches, atlas⟩ := sound.frame
    exact ⟨⟨live, (reaches.extend (Staging.extends_use_write range bytes)).congr rfl rfl rfl, atlas⟩, sound.numbered⟩

/-- What one action keeps. -/
theorem step (sound : w.Sound promised tracked) (follows : Follows tracked w.flushes promised)
    (allowed : w.Allows action) (spares : action.Spares tracked) : (w.step action).Sound promised tracked := by
  cases action with
  | register => exact sound.call fun live atlas => atlas.register
  | set id width height pitch bytes => exact sound.set spares
  | clear id => exact sound.call fun live atlas => atlas.clear (calm_of_spares atlas spares rfl)
  | remove id => exact sound.call fun live atlas => atlas.remove (calm_of_spares atlas spares rfl)
  | requestLayers count => exact sound.call fun live atlas => atlas.requestLayers count
  | requestRepack mode => exact sound.call fun live atlas => atlas.requestRepack mode (valid_of_spares atlas spares)
  | flush => exact flush (sound.frame.adoptReady.flush_of_adoptReady) sound.numbered follows
  | submit =>
    rcases waits : w.waiting with _ | ⟨s, rest⟩
    · exact absurd waits allowed
    · exact (sound.submit waits).2.2
  | finish => exact sound.finish allowed
  | limitMemory limit => exact sound.limitMemory limit
  | reserve count alignment bytes => exact sound.reserve count alignment bytes

/-- What a run keeps. -/
theorem run (run : Run w actions last) (sound : w.Sound promised tracked) (follows : Follows tracked w.flushes promised)
    (spares : ∀ action ∈ actions, action.Spares tracked) : last.Sound promised tracked := by
  induction run with
  | done => exact sound
  | more allowed _ ih =>
    refine ih (sound.step follows allowed (spares _ List.mem_cons_self)) ?_ fun action member =>
      spares action (List.mem_cons_of_mem _ member)
    intro s later
    exact follows s (Nat.le_trans (flushes_le_step _ _) later)

end Sound

end World

end TextureLoom.Atlas
