import TextureLoom.Proofs.Atlas.Resizing
import TextureLoom.Proofs.Atlas.Tabling

set_option autoImplicit false

namespace TextureLoom.Atlas

variable {accepted : Nat → Option PixelBuffer} {a b : Atlas} {id : Nat}

/-- An atlas with the place and the data of an id taken away, the id out of all queues, and another row for it. -/
def emptied (a : Atlas) (id : Nat) (f : Slot → Slot) (e : Entry) : Atlas :=
  (((a.releasePlace id).modifySlot id f).dequeue id).setEntry id e

/-- What an action other than a flush does to an atlas. -/
inductive Call (a : Atlas) : Atlas → Prop where
  | none : Call a a
  /-- An id is handed out. -/
  | handOut {id later : Nat} {left : List Nat} :
      HandsOut id a (({ a with freeIds := left, nextId := later }.modifySlot id fun _ => .fresh).setEntry id .blank) →
      Call a (({ a with freeIds := left, nextId := later }.modifySlot id fun _ => .fresh).setEntry id .blank)
  /-- An id loses its data, and may be given back. -/
  | empty {id : Nat} {f : Slot → Slot} {e : Entry} (freeIds : List Nat) : (a.slot id).isRegistered = true →
      Empties id (f (a.slot id).unplaced) a (a.emptied id f e) → Call a { a.emptied id f e with freeIds }
  | load {id : Nat} (t : Texture) : (a.slot id).isRegistered = true →
      sizeError? a.config id t.width t.height = none → Call a (a.load id t)
  /-- Layers or a repack are asked for. -/
  | request (layerRequest : Nat) (repackRequest : Option RepackMode) : Call a { a with layerRequest, repackRequest }
  /-- The device has finished: retired images go, and a repack that waits for the device is ready. -/
  | finish : Call a { a with
      retired := []
      repack := a.repack.map fun r =>
        if r.progress = .waiting ∧ r.queue.isEmpty then { r with progress := .ready } else r }

theorem register_eq (a : Atlas) : a.register.2 = a ∨ ∃ left later, a.register.2 =
    ({ a with freeIds := left, nextId := later }.modifySlot a.register.1 fun _ => .fresh).setEntry a.register.1
      .blank := by
  unfold Atlas.register nextFree
  rcases a.freeIds with _ | ⟨id, rest⟩
  · by_cases more : a.nextId < a.config.maxTextureId
    · rw [if_pos more]
      exact Or.inr ⟨[], a.nextId + 1, rfl⟩
    · rw [if_neg more]
      exact Or.inl rfl
  · exact Or.inr ⟨rest, a.nextId, rfl⟩

namespace Call

theorem emptied {f : Slot → Slot} {e : Entry} (registered : (a.slot id).isRegistered = true)
    (empties : Empties id (f (a.slot id).unplaced) a (a.emptied id f e)) : Call a (a.emptied id f e) := by
  have call : Call a { a.emptied id f e with freeIds := (a.emptied id f e).freeIds } := .empty _ registered empties
  generalize a.emptied id f e = b at call
  exact call

theorem register (registry : Registry accepted a.config.maxTextureId a.slots a.entries a.freeIds a.nextId) :
    Call a a.register.2 := by
  rcases handsOut_register registry with taken | handsOut
  · rw [taken]
    exact .none
  · rcases register_eq a with taken | ⟨left, later, isAtlas⟩
    · rw [taken]
      exact .none
    · rw [isAtlas] at handsOut ⊢
      exact .handOut handsOut

theorem set (a : Atlas) (id width height pitch : Nat) (bytes : ByteArray) :
    Call a (a.set id width height pitch bytes).1 := by
  have sets := sets_set a id width height pitch bytes
  generalize a.set id width height pitch bytes = result at sets
  cases sets with
  | ignored _ => exact .none
  | refused _ => exact .none
  | rejected _ registered => exact .emptied registered (empties_reject registered)
  | loaded t _ registered reads small =>
    rw [← reads.width, ← reads.height] at small
    exact .load t registered small

theorem clear (a : Atlas) (id : Nat) : Call a (a.clear id).1 := by
  unfold Atlas.clear
  split
  · exact .none
  · split
    · exact .none
    · rename_i checked
      have registered := isRegistered_of_check checked
      exact .emptied registered (empties_clear registered)

theorem remove (a : Atlas) (id : Nat) : Call a (a.remove id).1 := by
  unfold Atlas.remove
  split
  · exact .none
  · split
    · exact .none
    · rename_i checked
      have registered := isRegistered_of_check checked
      exact .empty (id :: a.freeIds) registered (empties_discard registered)

theorem fixes (call : Call a b) : Fixes a b := by
  cases call with
  | handOut handsOut => exact .of_edits handsOut.edits
  | empty freeIds registered empties => exact ⟨empties.edits.config, empties.edits.alignment,
      empties.edits.tableBuffer, empties.edits.entries_size⟩
  | load t registered => exact .of_edits (loads_load registered t).edits
  | _ => exact ⟨rfl, rfl, rfl, rfl⟩

/-- Only a flush shows another image. -/
theorem image (call : Call a b) : b.image = a.image := by
  cases call with
  | handOut handsOut => exact handsOut.edits.image
  | empty freeIds registered empties => exact empties.edits.image
  | load t registered => exact (loads_load registered t).edits.image
  | _ => rfl

/-- A change of the rows is noted. -/
theorem noted (call : Call a b) (fresh : b.tableStale = false) : a.tableStale = false ∧ b.entries = a.entries := by
  cases call with
  | handOut handsOut => cases fresh
  | empty freeIds registered empties => cases fresh
  | @load id t registered =>
    have rows : (a.load id t).tableStale = false → a.tableStale = false ∧ (a.load id t).entries = a.entries := by
      rw [Atlas.load]
      rcases releaseResized_cases a id t.width t.height with ⟨kept, _⟩ | released
      · rw [kept]
        simp only [joinRepack]
        split
        · intro stale
          cases stale
        · exact fun same => ⟨same, rfl⟩
      · rw [released]
        simp only [joinRepack]
        split <;> (intro stale; cases stale)
    exact rows fresh
  | none => exact ⟨fresh, rfl⟩
  | request _ _ => exact ⟨fresh, rfl⟩
  | finish => exact ⟨fresh, rfl⟩

end Call

namespace World

variable {w : World}

/-- What an action does to the atlas, a flush apart. -/
theorem call_of_step (orderly : w.atlas.Orderly) {action : Action} (other : action ≠ .flush) :
    Call w.atlas (w.step action).atlas := by
  cases action with
  | register =>
    obtain ⟨_, registry⟩ := orderly.registry
    exact .register registry
  | set id width height pitch bytes =>
    rw [atlas_step_set]
    exact .set w.atlas id width height pitch bytes
  | clear id => exact .clear w.atlas id
  | remove id => exact .remove w.atlas id
  | requestLayers count => exact .request _ _
  | requestRepack mode => exact .request _ _
  | flush => exact absurd rfl other
  | submit =>
    simp only [World.step]
    split <;> exact .none
  | finish => exact .finish
  | limitMemory limit => exact .none
  | reserve count alignment bytes =>
    simp only [World.step]
    split <;> exact .none

end World

end TextureLoom.Atlas
