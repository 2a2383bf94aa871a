import TextureLoom.Proofs.Atlas.Heeding
import TextureLoom.Proofs.Atlas.Layering

set_option autoImplicit false

namespace TextureLoom.Atlas

variable {accepted : Nat → Option PixelBuffer} {a : Atlas} {id other : Nat} {t : Texture} {present : Capacity}
  {maxLayers width height : Nat}

theorem getLastD_capacitiesOf {side first last : Nat} (present : Capacity) (some : first ≤ last) :
    (capacitiesOf side first last).getLastD present = ⟨side, last⟩ := by
  have count : last + 1 - first = (last - first) + 1 := by omega
  have final : first + 1 * (last - first) = last := by omega
  rw [capacitiesOf, count, List.range'_concat, List.map_append, List.map_singleton, List.getLastD_concat, final]

/-- Growth goes as far as it can: to the longest side, and first to all layers if the rectangle fits the side. -/
theorem getLastD_growthSteps (allowed : present.side ∈ allowedSides) (few : present.layers ≤ maxLayers) :
    (growthSteps present maxLayers width height).getLastD present =
      ⟨largestSide, if width ≤ present.side ∧ height ≤ present.side then maxLayers else present.layers⟩ := by
  have most : max present.layers maxLayers = maxLayers := Nat.max_eq_right few
  obtain ⟨side, layers⟩ := present
  dsimp only at allowed few most ⊢
  have cases : side = 1024 ∨ side = 2048 ∨ side = largestSide := by simpa [allowedSides, largestSide] using allowed
  have longest : sidesAbove largestSide = [] := rfl
  have above : side = largestSide ∨ ∃ shorter, sidesAbove side = shorter ++ [largestSide] := by
    rcases cases with rfl | rfl | rfl
    · exact Or.inr ⟨[2048], rfl⟩
    · exact Or.inr ⟨[], rfl⟩
    · exact Or.inl rfl
  unfold growthSteps
  dsimp only
  split
  · rw [most]
    rcases above with rfl | ⟨shorter, isAbove⟩
    · rw [longest, List.map_nil, List.append_nil]
      by_cases more : layers < maxLayers
      · exact getLastD_capacitiesOf _ more
      · have all : layers = maxLayers := by omega
        have none : maxLayers + 1 - (maxLayers + 1) = 0 := Nat.sub_self _
        rw [all, capacitiesOf, none]
        rfl
    · rw [isAbove, List.map_append, List.map_singleton, ← List.append_assoc, List.getLastD_concat]
  · rcases above with rfl | ⟨shorter, isAbove⟩
    · rw [longest]
      rfl
    · rw [isAbove, List.map_append, List.map_singleton, List.getLastD_concat]

namespace Frame

variable {f g next : Frame}

/-- Nothing is announced but one event. -/
def Announces (event : Event) (f g : Frame) : Prop := ∀ e ∈ g.events, e = event ∨ e ∈ f.events

namespace Announces

variable {event : Event}

theorem of_eq (same : g.events = f.events) : Announces event f g := fun _ known => Or.inr (same ▸ known)

theorem announce (f : Frame) (event : Event) : Announces event f (f.announce event) := by
  intro e known
  unfold Frame.announce at known
  split at known
  · exact Or.inr known
  · rcases List.mem_append.mp known with earlier | last
    · exact Or.inr earlier
    · exact Or.inl (List.mem_singleton.mp last)

theorem trans (first : Announces event f g) (second : Announces event g next) : Announces event f next := by
  intro e known
  rcases second e known with same | earlier
  · exact Or.inl same
  · exact first e earlier

end Announces

/-- Nothing is staged, and nothing is announced but that the device refused an image. -/
structure Quiet (f g : Frame) : Prop where
  staging : g.staging = f.staging
  announces : Announces .deviceOutOfMemory f g

namespace Quiet

theorem of_eq (staging : g.staging = f.staging) (events : g.events = f.events) : f.Quiet g :=
  ⟨staging, .of_eq events⟩

theorem refl (f : Frame) : f.Quiet f := .of_eq rfl rfl

theorem trans (first : f.Quiet g) (second : g.Quiet next) : f.Quiet next :=
  ⟨second.staging.trans first.staging, first.announces.trans second.announces⟩

end Quiet

theorem quiet_grow (f : Frame) (capacity : Capacity) : f.Quiet (f.grow capacity).2 := by
  simp only [grow]
  split
  · exact ⟨(announce_keeps f _).1, .announce f _⟩
  · exact .of_eq rfl rfl

/-- An image that is not created was refused. -/
theorem refused_of_grow {capacity : Capacity} (refused : (f.grow capacity).1 = false) :
    .deviceOutOfMemory ∈ (f.grow capacity).2.events := by
  simp only [grow] at refused ⊢
  split
  · exact mem_announce f _
  · rename_i created
    rw [created] at refused
    cases refused

theorem quiet_growRequested (f : Frame) : f.Quiet f.growRequested := by
  simp only [growRequested]
  split
  · exact .of_eq rfl rfl
  · have grown := quiet_grow f ⟨f.atlas.side, f.atlas.layerRequest⟩
    generalize f.grow ⟨f.atlas.side, f.atlas.layerRequest⟩ = result at grown ⊢
    obtain ⟨_ | _, g⟩ := result
    · exact grown
    · exact grown.trans (.of_eq rfl rfl)

theorem quiet_growUntilPlaced (id width height : Nat) (steps : List Capacity) (f : Frame) :
    f.Quiet (growUntilPlaced id width height steps f).2 := by
  induction steps generalizing f with
  | nil => exact .refl f
  | cons capacity rest ih =>
    have grown := quiet_grow f capacity
    rw [growUntilPlaced]
    generalize f.grow capacity = result at grown
    obtain ⟨_ | _, g⟩ := result
    · exact grown
    · dsimp only at grown ⊢
      split
      · exact grown.trans (.of_eq rfl rfl)
      · exact grown.trans (ih g)

theorem quiet_place (f : Frame) (id width height : Nat) : f.Quiet (f.place id width height).2 := by
  unfold place
  split
  · exact .of_eq rfl rfl
  · exact quiet_growUntilPlaced id width height _ f

theorem quiet_placeWaiting (short : Bool × Frame) (id : Nat) : short.2.Quiet (placeWaiting short id).2 := by
  rcases placeWaiting_cases short id with ⟨_, same⟩ | ⟨t, _, _, isPlacing⟩
  · rw [same]
    exact .refl short.2
  · have placed := quiet_place short.2 id (t.width + 2 * short.2.atlas.config.padding)
      (t.height + 2 * short.2.atlas.config.padding)
    rw [isPlacing]
    generalize short.2.place id _ _ = result at placed
    obtain ⟨_ | _, g⟩ := result
    · exact placed.trans (.of_eq rfl rfl)
    · exact placed

theorem quiet_placing (short : Bool × Frame) (ids : List Nat) : short.2.Quiet (ids.foldl placeWaiting short).2 :=
  List.foldlRecOn (motive := fun after => short.2.Quiet after.2) ids placeWaiting (.refl short.2)
    fun after before id _ => before.trans (quiet_placeWaiting after id)

theorem staging_placeAllWaiting (f : Frame) (ids : List Nat) : (f.placeAllWaiting ids).staging = f.staging := by
  have placed := (quiet_placing (false, f) ids).staging
  unfold placeAllWaiting
  generalize ids.foldl placeWaiting (false, f) = result at placed
  obtain ⟨_ | _, g⟩ := result
  · exact placed
  · exact (announce_keeps g _).1.trans placed

/-- Without a repack to show or to start, a flush goes right on to placing what waits. -/
theorem startRequested_of_unasked (unasked : f.atlas.repackRequest = none) : f.startRequested = f := by
  unfold startRequested
  split
  · rename_i asked
    cases asked.symm.trans unasked
  · rfl

theorem staging_startRequested (f : Frame) : f.startRequested.staging = f.staging := by
  unfold startRequested
  split
  · unfold startRepack
    dsimp only
    split
    · rfl
    · split
      · exact (announce_keeps _ _).1
      · unfold startPlanned
        split
        · exact (announce_keeps _ _).1
        · exact (announce_keeps _ _).1
  · rfl

theorem staging_gathered (f : Frame) : f.gathered.staging = f.staging := by
  unfold gathered
  rw [takeWaiting_eq]
  have grown := (quiet_growRequested f.adoptReady.startRequested).staging
  have started := staging_startRequested f.adoptReady
  exact grown.trans (started.trans f.adoptReady_keeps.2.1)

/-- If no image was refused, nothing that was grown through had a place. -/
theorem capacity_of_growUntilPlaced {steps : List Capacity}
    (failed : (growUntilPlaced id width height steps f).1 = false)
    (granted : .deviceOutOfMemory ∉ (growUntilPlaced id width height steps f).2.events) :
    (growUntilPlaced id width height steps f).2.atlas.image.capacity = steps.getLastD f.atlas.image.capacity := by
  induction steps generalizing f with
  | nil => rfl
  | cons capacity rest ih =>
    obtain ⟨_, _, reached⟩ := grow_keeps f capacity
    have refused := @refused_of_grow f capacity
    rw [growUntilPlaced] at failed granted ⊢
    rw [List.getLastD_cons]
    generalize f.grow capacity = result at failed granted reached refused ⊢
    obtain ⟨_ | _, g⟩ := result
    · exact absurd (refused rfl) granted
    · dsimp only at failed granted reached ⊢
      split at failed
      · cases failed
      · rename_i unplaced
        rw [unplaced] at granted
        rw [ih failed granted, reached rfl]

end Frame

end TextureLoom.Atlas
