import TextureLoom.Proofs.Atlas.Filling

set_option autoImplicit false

namespace TextureLoom.Atlas

/-- What is at a place of an image is at that place of another one behind the commands: of the image itself, or of the
last that it was copied to with the place. -/
inductive Carries (p : Placement) : Nat → List Command → Nat → Prop where
  | done (handle : Nat) : Carries p handle [] handle
  | pass {source target : Nat} {commands : List Command} (c : Command) : Carries p source commands target →
      Carries p source (c :: commands) target
  | copy {source middle target side layers : Nat} {commands : List Command} : p.Within ⟨side, layers⟩ →
      Carries p middle commands target → Carries p source (.copyImage source middle side layers :: commands) target

variable {p : Placement} {source middle target : Nat} {first second : List Command}

namespace Carries

theorem refl (p : Placement) (handle : Nat) (commands : List Command) : Carries p handle commands handle := by
  induction commands with
  | nil => exact .done handle
  | cons c rest ih => exact .pass c ih

theorem append (carries : Carries p source first middle) (later : Carries p middle second target) :
    Carries p source (first ++ second) target := by
  induction carries with
  | done handle => exact later
  | pass c _ ih => exact .pass c (ih later)
  | copy within _ ih => exact .copy within (ih later)

/-- Copying an image into one that is at least as large takes its places along. -/
theorem copyCommands {old new : OwnedImage} (larger : old.capacity.Le new.capacity) (within : p.Within old.capacity) :
    Carries p old.handle (Frame.copyCommands old new).1 (Frame.copyCommands old new).2.handle := by
  have copied : p.Within ⟨old.capacity.side, min old.capacity.layers new.capacity.layers⟩ := by
    rw [Nat.min_eq_left larger.2]
    exact within
  have copy : Carries p old.handle [.copyImage old.handle new.handle old.capacity.side
      (min old.capacity.layers new.capacity.layers)] new.handle := .copy copied (.done new.handle)
  rw [(Frame.copyCommands_image old new).1]
  simp only [Frame.copyCommands, OwnedImage.turn_handle, OwnedImage.turn_capacity]
  exact ((((refl p old.handle _).append (refl p old.handle _)).append copy).append (refl p new.handle _)).append
    (refl p new.handle _)

end Carries

namespace Frame

variable {f g next : Frame} {id : Nat}

/-- What is at a place of the live image stays there, in whatever image is the live one then. -/
def Conveys (p : Placement) (f g : Frame) : Prop :=
  p.Within f.atlas.image.capacity → p.Within g.atlas.image.capacity ∧ ∃ more,
    g.commands.toList = f.commands.toList ++ more ∧ Carries p f.atlas.image.handle more g.atlas.image.handle

namespace Conveys

theorem refl (f : Frame) : Conveys p f f := fun within => ⟨within, [], (List.append_nil _).symm, .done _⟩

theorem trans (first : Conveys p f g) (second : Conveys p g next) : Conveys p f next := by
  intro within
  obtain ⟨withinAt, more, isMore, carries⟩ := first within
  obtain ⟨withinNext, last, isLast, later⟩ := second withinAt
  exact ⟨withinNext, more ++ last, by rw [isLast, isMore, List.append_assoc], carries.append later⟩

/-- Where the live image stays the same. -/
theorem of_image (more : List Command) (isMore : g.commands.toList = f.commands.toList ++ more)
    (handle : g.atlas.image.handle = f.atlas.image.handle)
    (capacity : g.atlas.image.capacity = f.atlas.image.capacity) : Conveys p f g := by
  intro within
  rw [capacity, handle]
  exact ⟨within, more, isMore, .refl p _ more⟩

theorem of_adds (adds : f.AddsNoBuffer g) (handle : g.atlas.image.handle = f.atlas.image.handle)
    (capacity : g.atlas.image.capacity = f.atlas.image.capacity) : Conveys p f g := by
  obtain ⟨more, isMore, _⟩ := adds
  exact of_image more isMore handle capacity

end Conveys

theorem Work.conveys (work : Work f g) : Conveys p f g := by
  have adds := work.addsNoBuffer
  cases work with
  | announce event =>
    have same := announce_atlas f event
    exact .of_adds adds (by rw [same]) (by rw [same])
  | @enlarge capacity handle device grows created =>
    intro within
    obtain ⟨isHandle, isCapacity⟩ := copyCommands_image f.atlas.image ⟨handle, capacity, .undefined⟩
    obtain ⟨_, _, refreshed, _⟩ := refreshEntries_eq { f.atlas with
      image := (copyCommands f.atlas.image ⟨handle, capacity, .undefined⟩).2
      retired := f.atlas.retired ++ [f.atlas.image.handle] }
    simp only [enlarged, modifyAtlas, record, refreshed]
    refine ⟨?_, (copyCommands f.atlas.image ⟨handle, capacity, .undefined⟩).1, ?_, ?_⟩
    · rw [rebuildBins, isCapacity]
      exact within.mono grows.larger
    · rw [Array.toList_appendList]
    · have larger : f.atlas.image.capacity.Le (⟨handle, capacity, .undefined⟩ : OwnedImage).capacity := grows.larger
      exact Carries.copyCommands larger within
  | place texture unplaced found =>
    obtain ⟨_, _, rfl⟩ := Option.map_eq_some_iff.mp found
    exact .of_adds adds rfl rfl
  | @upload id start t p next texture placed staged =>
    have edits := (edits_modifySlot (next.turnLive .transferTarget).atlas id Slot.uploaded).trans (edits_showPlace _ id)
    have same := atlas_of_stage staged
    refine .of_adds adds ?_ ?_
    · refine (congrArg OwnedImage.handle edits.image).trans ?_
      rw [← same]
      exact OwnedImage.turn_handle _ _
    · refine (congrArg OwnedImage.capacity edits.image).trans ?_
      rw [← same]
      exact OwnedImage.turn_capacity _ _
  | uploadPlanned running texture planned staged =>
    have same := atlas_of_stage staged
    refine .of_adds adds ?_ ?_ <;> simp only [record, turnRepack_atlas, same]
  | _ => exact .of_adds adds rfl rfl

theorem Works.conveys (works : f.Works g) : Conveys p f g :=
  works.induction (.refl f) fun _ _ work before => before.trans work.conveys

theorem conveys_uploadTable (f : Frame) : Conveys p f f.uploadTable := by
  unfold uploadTable
  split
  · dsimp only
    split
    · have same := announce_atlas f .stagingOverflow
      refine .of_adds (.of_eq (announce_keeps f _).2.1) ?_ ?_ <;> rw [same]
    · rename_i start g found
      have image : g.atlas.image = f.atlas.image := congrArg (fun a : Atlas => a.image) (atlas_of_stage found)
      refine .of_image [.copyToBuffer start g.atlas.tableBuffer f.atlas.config.tableBytes,
        .bufferBarrier g.atlas.tableBuffer] ?_ (congrArg OwnedImage.handle image) (congrArg OwnedImage.capacity image)
      rw [modifyAtlas, record, Array.toList_appendList, (keeps_of_stage found).1]
  · exact .refl f

theorem conveys_finishRepack (f : Frame) (written : Bool) : Conveys p f (f.finishRepack written) := by
  cases written with
  | true =>
    refine .of_adds (addsNoBuffer_turnRepack f .shaderRead) ?_ ?_ <;>
      simp only [finishRepack, modifyAtlas, ↓reduceIte, turnRepack_atlas]
  | false => exact .refl f

theorem conveys_flush (f : Frame) : Conveys p f.adoptReady f.flush := by
  obtain ⟨g, written, works, isFlush⟩ := works_flush f
  have turned : Conveys p g.uploadTable (g.uploadTable.turnLive .shaderRead) :=
    .of_adds (addsNoBuffer_turnLive _ .shaderRead) (OwnedImage.turn_handle _ _) (OwnedImage.turn_capacity _ _)
  rw [isFlush]
  exact ((works.conveys.trans (conveys_uploadTable g)).trans turned).trans (conveys_finishRepack _ written)

end Frame

end TextureLoom.Atlas
