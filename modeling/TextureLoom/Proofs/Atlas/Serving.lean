import TextureLoom.Proofs.Atlas.Calling

set_option autoImplicit false

namespace TextureLoom.Atlas

variable {accepted : Nat → Option PixelBuffer} {a b : Atlas} {id other : Nat}

/-- What serving an action other than a flush makes of an atlas, each kind of action by itself. -/
inductive Serves (a : Atlas) : Atlas → Prop where
  | none : Serves a a
  /-- An id is handed out that was given back, or the least that never was handed out. -/
  | handOut {id later : Nat} {left : List Nat} : id ∈ a.freeIds ∨ id = a.nextId → a.nextId ≤ later →
      HandsOut id a (({ a with freeIds := left, nextId := later }.modifySlot id fun _ => .fresh).setEntry id .blank) →
      Serves a (({ a with freeIds := left, nextId := later }.modifySlot id fun _ => .fresh).setEntry id .blank)
  | reject {id : Nat} : (a.slot id).isRegistered = true → Serves a (a.reject id)
  | clear {id : Nat} : (a.slot id).isRegistered = true → Serves a (a.forget id Slot.cleared)
  | remove {id : Nat} (freeIds : List Nat) : (a.slot id).isRegistered = true →
      Serves a { a.forget id Slot.discarded with freeIds }
  | load {id : Nat} (t : Texture) : (a.slot id).isRegistered = true → Serves a (a.load id t)
  | requestLayers (count : Nat) : Serves a (a.requestLayers count)
  | requestRepack (mode : RepackMode) : Serves a (a.requestRepack mode)
  /-- The device has finished: retired images go, and a repack that waits for the device is ready. -/
  | finish : Serves a { a with
      retired := []
      repack := a.repack.map fun r =>
        if r.progress = .waiting ∧ r.queue.isEmpty then { r with progress := .ready } else r }

/-- An id that is handed out was given back, or it is the least that never was handed out. -/
theorem register_cases (a : Atlas) : a.register.2 = a ∨
    ∃ left later, (a.register.1 ∈ a.freeIds ∨ a.register.1 = a.nextId) ∧ a.nextId ≤ later ∧ a.register.2 =
      ({ a with freeIds := left, nextId := later }.modifySlot a.register.1 fun _ => .fresh).setEntry a.register.1
        .blank := by
  unfold Atlas.register nextFree
  rcases a.freeIds with _ | ⟨id, rest⟩
  · by_cases more : a.nextId < a.config.maxTextureId
    · rw [if_pos more]
      exact Or.inr ⟨[], a.nextId + 1, Or.inr rfl, Nat.le_succ _, rfl⟩
    · rw [if_neg more]
      exact Or.inl rfl
  · exact Or.inr ⟨rest, a.nextId, Or.inl List.mem_cons_self, Nat.le_refl _, rfl⟩

namespace Serves

theorem register (registry : Registry accepted a.config.maxTextureId a.slots a.entries a.freeIds a.nextId) :
    Serves a a.register.2 := by
  rcases handsOut_register registry with taken | handsOut
  · rw [taken]
    exact .none
  · rcases register_cases a with taken | ⟨left, later, isNext, more, isAtlas⟩
    · rw [taken]
      exact .none
    · rw [isAtlas] at handsOut ⊢
      exact .handOut isNext more handsOut

theorem set (a : Atlas) (id width height pitch : Nat) (bytes : ByteArray) :
    Serves a (a.set id width height pitch bytes).1 := by
  have sets := sets_set a id width height pitch bytes
  generalize a.set id width height pitch bytes = result at sets
  cases sets with
  | ignored _ => exact .none
  | refused _ => exact .none
  | rejected _ registered => exact .reject registered
  | loaded t _ registered _ => exact .load t registered

theorem clear_id (a : Atlas) (id : Nat) : Serves a (a.clear id).1 := by
  unfold Atlas.clear
  split
  · exact .none
  · split
    · exact .none
    · rename_i checked
      exact .clear (isRegistered_of_check checked)

theorem remove_id (a : Atlas) (id : Nat) : Serves a (a.remove id).1 := by
  unfold Atlas.remove
  split
  · exact .none
  · split
    · exact .none
    · rename_i checked
      exact .remove _ (isRegistered_of_check checked)

end Serves

/-- What an action other than a flush does to the atlas. -/
theorem World.serves_of_step {w : World} (orderly : w.atlas.Orderly) {action : Action} (other : action ≠ .flush) :
    Serves w.atlas (w.step action).atlas := by
  cases action with
  | register =>
    obtain ⟨_, registry⟩ := orderly.registry
    exact .register registry
  | set id width height pitch bytes =>
    rw [atlas_step_set]
    exact .set w.atlas id width height pitch bytes
  | clear id => exact .clear_id w.atlas id
  | remove id => exact .remove_id w.atlas id
  | requestLayers count => exact .requestLayers count
  | requestRepack mode => exact .requestRepack mode
  | flush => exact absurd rfl other
  | submit =>
    simp only [World.step]
    split <;> exact .none
  | finish => exact .finish
  | limitMemory limit => exact .none
  | reserve count alignment bytes =>
    simp only [World.step]
    split <;> exact .none

/-- What serving an action does to an id and its row. -/
inductive Restates (id : Nat) (a b : Atlas) : Prop where
  /-- The action is about other ids, or about none. -/
  | kept : b.slot id = a.slot id → b.entries[id]? = a.entries[id]? → Restates id a b
  | handedOut : id ∈ a.freeIds ∨ id = a.nextId → (a.slot id).isRegistered = false → b.slot id = .fresh →
      b.entries[id]? = some .blank → Restates id a b
  | rejected : (a.slot id).isRegistered = true → b.slot id = (a.slot id).unplaced.rejected →
      b.entries[id]? = some .tooLarge → Restates id a b
  | cleared : (a.slot id).isRegistered = true → b.slot id = (a.slot id).unplaced.cleared →
      b.entries[id]? = some .blank → Restates id a b
  | discarded : (a.slot id).isRegistered = true → b.slot id = (a.slot id).unplaced.discarded →
      b.entries[id]? = some .blank → Restates id a b
  /-- Data is set for an id that keeps its place. -/
  | reloaded (t : Texture) : (a.slot id).isRegistered = true → (a.slot id).place.isSome →
      b.slot id = (a.slot id).loaded t → b.entries[id]? = a.entries[id]? → Restates id a b
  /-- Data is set for an id that has no place, or has lost it for the size. -/
  | loaded {s : Slot} (t : Texture) : (a.slot id).isRegistered = true →
      s = (a.slot id).unplaced ∨ s = a.slot id ∧ s.place = none → b.slot id = s.loaded t →
      b.entries[id]? = some .pending → Restates id a b

theorem entries_emptied (sizes : a.slots.size = a.entries.size) (registered : (a.slot id).isRegistered = true)
    (f : Slot → Slot) (e : Entry) : (a.emptied id f e).entries[id]? = some e :=
  (entries_setEntry _ id e).trans (if_pos ⟨rfl, sizes ▸ lt_of_isRegistered registered⟩)

theorem restates_load (registered : (a.slot id).isRegistered = true) (bound : id < a.entries.size) (t : Texture) :
    Restates id a (a.load id t) := by
  have inside := lt_of_isRegistered registered
  have marked : ∀ m : Atlas, id < m.slots.size → id < m.entries.size →
      let loaded := m.modifySlot id (·.loaded t)
      let marked := if (loaded.placement? id).isNone then loaded.setEntry id .pending else loaded
      marked.slot id = (m.slot id).loaded t ∧
        marked.entries[id]? = if (m.slot id).place.isNone then some .pending else m.entries[id]? := by
    intro m inside bound loaded marked
    have slotOf : loaded.slot id = (m.slot id).loaded t := slot_modifySlot_self inside _
    have placeOf : loaded.placement? id = (m.slot id).place := by
      rw [placement?, slotOf]
      rfl
    simp only [marked, placeOf]
    split
    · refine ⟨slotOf, ?_⟩
      rw [entries_setEntry, if_pos ⟨rfl, bound⟩]
    · exact ⟨slotOf, rfl⟩
  rw [load]
  rcases releaseResized_cases a id t.width t.height with ⟨kept, _⟩ | released
  · rw [kept]
    obtain ⟨slotOf, row⟩ := marked a inside bound
    rcases placed : (a.slot id).place with _ | p
    · rw [placed] at row
      exact .loaded t registered (Or.inr ⟨rfl, placed⟩) slotOf row
    · rw [placed] at row
      exact .reloaded t registered (by rw [placed]; rfl) slotOf row
  · rw [released]
    have slotOf : (((a.releasePlace id).setEntry id .pending).unplan id).slot id = (a.slot id).unplaced :=
      slot_modifySlot_self inside Slot.unplaced
    have edits : Edits id a (((a.releasePlace id).setEntry id .pending).unplan id) :=
      ((edits_releasePlace a id).trans (edits_setEntry _ id _)).trans (edits_unplan _ id)
    obtain ⟨loadedOf, row⟩ := marked _ (edits.slots_size ▸ inside) (edits.entries_size ▸ bound)
    rw [slotOf] at loadedOf row
    exact .loaded t registered (Or.inl rfl) loadedOf row

/-- What serving any action does to any id. -/
theorem Serves.restates (serves : Serves a b) (sizes : a.slots.size = a.entries.size) (id : Nat) :
    Restates id a b := by
  cases serves with
  | @handOut handed later left isNext _ handsOut =>
    by_cases same : id = handed
    · subst same
      have used := lt_of_isRegistered (a := _) (by rw [handsOut.slot]; rfl)
      rw [handsOut.edits.slots_size, sizes] at used
      refine .handedOut isNext handsOut.unregistered handsOut.slot ?_
      rw [entries_setEntry, if_pos ⟨rfl, used⟩]
    · exact .kept (handsOut.edits.slotOf id same) (handsOut.edits.entryOf id same)
  | @reject named registered =>
    have empties := empties_reject registered
    by_cases same : id = named
    · subst same
      exact .rejected registered empties.slot (entries_emptied sizes registered Slot.rejected .tooLarge)
    · exact .kept (empties.edits.slotOf id same) (empties.edits.entryOf id same)
  | @clear named registered =>
    have empties := empties_clear registered
    by_cases same : id = named
    · subst same
      exact .cleared registered empties.slot (entries_emptied sizes registered Slot.cleared .blank)
    · exact .kept (empties.edits.slotOf id same) (empties.edits.entryOf id same)
  | @remove named freeIds registered =>
    have empties := empties_discard registered
    by_cases same : id = named
    · subst same
      exact .discarded registered empties.slot (entries_emptied sizes registered Slot.discarded .blank)
    · exact .kept (empties.edits.slotOf id same) (empties.edits.entryOf id same)
  | @load named t registered =>
    have loads := loads_load registered t
    by_cases same : id = named
    · subst same
      exact restates_load registered (sizes ▸ lt_of_isRegistered registered) t
    · exact .kept (loads.edits.slotOf id same) (loads.edits.entryOf id same)
  | _ => exact .kept rfl rfl

end TextureLoom.Atlas
