import TextureLoom.Proofs.Atlas.Numbering
import TextureLoom.Proofs.Atlas.Queueing

set_option autoImplicit false

namespace TextureLoom.Atlas

variable {a b : Atlas} {id other : Nat}

/-- Whether data was refused because no atlas of the configuration has a place for its size. -/
def DataError.isTooLarge : DataError → Bool
  | .aboveLimit _ _ _ _ | .aboveSide _ _ _ _ _ => true
  | _ => false

/-- All that two atlases have of an id is the same: its state, size, pixels, place and generation, its row in the table,
and where it waits. -/
structure Alike (id : Nat) (a b : Atlas) : Prop where
  slot : b.slot id = a.slot id
  status : b.status? id = a.status? id
  entry : b.entry? id = a.entry? id
  pending : b.isPending id = a.isPending id
  planned : b.planAt id = a.planAt id

namespace Alike

theorem refl (id : Nat) (a : Atlas) : Alike id a a := ⟨rfl, rfl, rfl, rfl, rfl⟩

/-- A change of one id leaves another one alike if it leaves that in its queues. -/
theorem of_edits (edits : Edits id a b) (distinct : other ≠ id) (pending : b.isPending other = a.isPending other)
    (planned : b.planAt other = a.planAt other) : Alike other a b where
  slot := edits.slotOf other distinct
  status := by rw [status?, status?, ignores, ignores, edits.config, edits.slotOf other distinct]
  entry := edits.entryOf other distinct
  pending := pending
  planned := planned

theorem handOut (a : Atlas) (left : List Nat) (later : Nat) (distinct : other ≠ id) : Alike other a
    (({ a with freeIds := left, nextId := later }.modifySlot id fun _ => .fresh).setEntry id .blank) := by
  have edits := (edits_modifySlot a id fun _ => .fresh).trans (edits_setEntry _ id .blank)
  exact .of_edits { edits with } distinct rfl rfl

theorem emptied {f : Slot → Slot} {e : Entry} (empties : Empties id (f (a.slot id).unplaced) a (a.emptied id f e))
    (freeIds : List Nat) (distinct : other ≠ id) : Alike other a { a.emptied id f e with freeIds } := by
  have edits : Edits id a { a.emptied id f e with freeIds } := { empties.edits with }
  apply Alike.of_edits edits distinct
  · exact Queue.contains_remove_of_ne a.pending distinct
  · exact planAt_emptied_of_ne a f e freeIds distinct

theorem load (registered : (a.slot id).isRegistered = true) (t : Texture) (distinct : other ≠ id) :
    Alike other a (a.load id t) := by
  apply Alike.of_edits (loads_load registered t).edits distinct
  · rw [isPending, (queues_load a id t).1]
    exact Queue.contains_push_of_ne a.pending distinct
  · exact planAt_load_of_ne a t distinct

/-- Either an id is handed out, or nothing changes. -/
theorem register (a : Atlas) :
    a.register = (overflowId, a) ∨ ∀ other, other ≠ a.register.1 → Alike other a a.register.2 := by
  unfold Atlas.register nextFree
  rcases a.freeIds with _ | ⟨id, rest⟩
  · by_cases more : a.nextId < a.config.maxTextureId
    · rw [if_pos more]
      exact Or.inr fun other distinct => .handOut a [] (a.nextId + 1) distinct
    · rw [if_neg more]
      exact Or.inl rfl
  · exact Or.inr fun other distinct => .handOut a rest a.nextId distinct

theorem set (a : Atlas) (width height pitch : Nat) (bytes : ByteArray) (distinct : other ≠ id) :
    Alike other a (a.set id width height pitch bytes).1 := by
  have sets := sets_set a id width height pitch bytes
  generalize a.set id width height pitch bytes = result at sets
  cases sets with
  | ignored _ | refused _ => exact .refl other a
  | rejected _ registered => exact .emptied (empties_reject registered) a.freeIds distinct
  | loaded t _ registered _ => exact .load registered t distinct

theorem clear (a : Atlas) (distinct : other ≠ id) : Alike other a (a.clear id).1 := by
  unfold Atlas.clear
  split
  · exact .refl other a
  · split
    · exact .refl other a
    · rename_i checked
      exact .emptied (empties_clear (isRegistered_of_check checked)) a.freeIds distinct

theorem remove (a : Atlas) (distinct : other ≠ id) : Alike other a (a.remove id).1 := by
  unfold Atlas.remove
  split
  · exact .refl other a
  · split
    · exact .refl other a
    · rename_i checked
      exact .emptied (empties_discard (isRegistered_of_check checked)) (id :: a.freeIds) distinct

end Alike

/-- Of an id that calls pass over, none changes anything. -/
theorem calls_of_ignores (ignored : a.ignores id = true) (width height pitch : Nat) (bytes : ByteArray) :
    a.set id width height pitch bytes = (a, .ok ()) ∧ a.clear id = (a, .ok ()) ∧ a.remove id = (a, .ok ()) := by
  rw [Atlas.set, Atlas.clear, Atlas.remove, if_pos ignored, if_pos ignored, if_pos ignored]
  exact ⟨rfl, rfl, rfl⟩

theorem isTooLarge_of_sizeError? {c : Config} {width height : Nat} {e : DataError}
    (tooLarge : sizeError? c id width height = some e) : e.isTooLarge = true := by
  unfold sizeError? at tooLarge
  split at tooLarge
  · cases tooLarge
    rfl
  · split at tooLarge
    · cases tooLarge
      rfl
    · cases tooLarge

/-- Data that is refused for anything but its size changes nothing. -/
theorem set_of_error {width height pitch : Nat} {bytes : ByteArray} {e : DataError}
    (refused : (a.set id width height pitch bytes).2 = .error e) (fits : e.isTooLarge = false) :
    (a.set id width height pitch bytes).1 = a := by
  unfold Atlas.set at refused ⊢
  split
  · rfl
  · rename_i heeded
    rw [if_neg heeded] at refused
    split
    · rfl
    · rename_i checked
      rw [checked] at refused
      split
      · rfl
      · rename_i positive
        simp only [if_neg positive] at refused
        split
        · rename_i tooLarge
          rw [tooLarge] at refused
          cases refused
          cases (isTooLarge_of_sizeError? tooLarge).symm.trans fits
        · rename_i sized
          rw [sized] at refused
          split
          · rfl
          · rename_i read
            rw [read] at refused
            cases refused

/-- In whatever state an atlas is, no call leaks into other ids, none changes anything for an id that is reserved or
stands for none, and neither does data that is refused for anything but its size. -/
theorem isolated_calls (a : Atlas) (id width height pitch : Nat) (bytes : ByteArray) :
    (a.register = (overflowId, a) ∨ ∀ other, other ≠ a.register.1 → Alike other a a.register.2) ∧
    (∀ other, other ≠ id → Alike other a (a.set id width height pitch bytes).1 ∧ Alike other a (a.clear id).1 ∧
      Alike other a (a.remove id).1) ∧
    (id < a.config.reservedCount ∨ id = noId → a.set id width height pitch bytes = (a, .ok ()) ∧
      a.clear id = (a, .ok ()) ∧ a.remove id = (a, .ok ())) ∧
    ∀ e, (a.set id width height pitch bytes).2 = .error e → e.isTooLarge = false →
      (a.set id width height pitch bytes).1 = a := by
  refine ⟨Alike.register a, ?_, ?_, ?_⟩
  · intro other distinct
    exact ⟨.set a width height pitch bytes distinct, .clear a distinct, .remove a distinct⟩
  · intro passed
    apply calls_of_ignores
    rw [ignores, Bool.or_eq_true, beq_iff_eq, decide_eq_true_eq]
    exact passed.symm
  · intro e refused fits
    exact set_of_error refused fits

namespace World

/-- Two ids are handed out, one is drawn, and a repack is running. -/
def paired : World :=
  [Action.register, .register, .set 3 1 1 0 ⟨#[200, 100, 50, 255]⟩, .flush, .requestRepack .keepCapacity,
    .flush].foldl step spare

theorem paired_runs : paired.atlas.repack.isSome ∧ paired.atlas.status? 2 = some .registered ∧
    (paired.atlas.slot 3).texture.isSome ∧ 1 < paired.atlas.config.reservedCount ∧ paired.atlas.register.1 ≠ 3 ∧
      (match (paired.atlas.set 2 1 1 0 ⟨#[]⟩).2 with | .error e => some e | .ok _ => none) =
        some (.shortBuffer 0 4) := by
  decide +kernel

theorem refused_paired : (paired.atlas.set 2 1 1 0 ⟨#[]⟩).2 = .error (.shortBuffer 0 4) := by
  have refused := paired_runs.2.2.2.2.2
  split at refused
  · rename_i e isError
    rw [isError, Option.some.inj refused]
  · cases refused

theorem isolated_calls_paired : paired.atlas.repack.isSome ∧ (paired.atlas.slot 3).texture.isSome ∧
    (paired.atlas.register = (overflowId, paired.atlas) ∨ Alike 3 paired.atlas paired.atlas.register.2) ∧
    Alike 3 paired.atlas (paired.atlas.clear 2).1 ∧ paired.atlas.remove 1 = (paired.atlas, .ok ()) ∧
    (paired.atlas.set 2 1 1 0 ⟨#[]⟩).2 = .error (.shortBuffer 0 4) ∧
    (paired.atlas.set 2 1 1 0 ⟨#[]⟩).1 = paired.atlas := by
  obtain ⟨running, _, texture, reserved, different, _⟩ := paired_runs
  obtain ⟨handsOut, others, _, refused⟩ := isolated_calls paired.atlas 2 1 1 0 ⟨#[]⟩
  obtain ⟨_, _, passed, _⟩ := isolated_calls paired.atlas 1 1 1 0 ⟨#[]⟩
  refine ⟨running, texture, ?_, (others 3 (by decide)).2.1, (passed (Or.inl reserved)).2.2, refused_paired, ?_⟩
  · exact handsOut.imp_right fun spared => spared 3 different.symm
  · exact refused (.shortBuffer 0 4) refused_paired rfl

end World

end TextureLoom.Atlas
