import TextureLoom.Proofs.Atlas.Settling

set_option autoImplicit false

namespace TextureLoom.Atlas

variable {a b : Atlas} {id : Nat} {used : List Nat} {w : World}

/-- The ids in use, given back and never handed out are the same. -/
structure SameIds (a b : Atlas) : Prop where
  config : b.config = a.config
  freeIds : b.freeIds = a.freeIds
  nextId : b.nextId = a.nextId
  registered : ∀ id, (b.slot id).isRegistered = (a.slot id).isRegistered

namespace SameIds

theorem refl (a : Atlas) : SameIds a a := ⟨rfl, rfl, rfl, fun _ => rfl⟩

/-- A change of one id that is in use and stays in use. -/
theorem edit (edits : Edits id a b) (freeIds : b.freeIds = a.freeIds) (nextId : b.nextId = a.nextId)
    (before : (a.slot id).isRegistered = true) (after : (b.slot id).isRegistered = true) : SameIds a b where
  config := edits.config
  freeIds := freeIds
  nextId := nextId
  registered := by
    intro other
    by_cases same : other = id
    · rw [same, before, after]
    · rw [edits.slotOf other same]

theorem set (a : Atlas) (id width height pitch : Nat) (bytes : ByteArray) :
    SameIds a (a.set id width height pitch bytes).1 := by
  have sets := sets_set a id width height pitch bytes
  generalize a.set id width height pitch bytes = result at sets
  cases sets with
  | ignored _ => exact .refl a
  | refused _ => exact .refl a
  | rejected _ registered =>
    have empties := empties_reject registered
    exact .edit empties.edits empties.freeIds empties.nextId registered (by rw [empties.slot]; rfl)
  | loaded t _ registered _ =>
    have loads := loads_load registered t
    refine .edit loads.edits loads.freeIds loads.nextId registered ?_
    rcases loads.cases with ⟨_, slot, _⟩ | ⟨_, slot⟩ <;>
    · rw [slot]
      rfl

theorem clear (a : Atlas) (id : Nat) : SameIds a (a.clear id).1 := by
  unfold Atlas.clear
  split
  · exact .refl a
  · split
    · exact .refl a
    · rename_i checked
      have registered := isRegistered_of_check checked
      have empties := empties_clear registered
      exact .edit empties.edits empties.freeIds empties.nextId registered (by rw [empties.slot]; rfl)

theorem flush (orderly : a.Orderly) (device : Device) (staging : Staging) :
    SameIds a (a.flush device staging).atlas := by
  obtain ⟨_, keeps⟩ := orderly.flush device staging
  have numbers := flush_induction (motive := fun b => b.nextId = a.nextId ∧ b.freeIds = a.freeIds) ⟨rfl, rfl⟩
      (fun _ _ step before => ⟨step.numbers.1.trans before.1, step.numbers.2.trans before.2⟩) device staging
  exact ⟨keeps.atlas.config, numbers.2, numbers.1, keeps.atlas.registered⟩

end SameIds

/-- The ids handed out so far are those in use, which are registered, and those given back, each of them once. -/
structure Numbered (used : List Nat) (a : Atlas) : Prop where
  registered : ∀ id, id ∈ used ↔ (a.slot id).isRegistered = true
  handedOut : (used ++ a.freeIds).Perm (List.range' a.config.reservedCount (a.nextId - a.config.reservedCount))
  next : a.config.reservedCount ≤ a.nextId ∧ a.nextId ≤ a.config.maxTextureId

namespace Numbered

theorem distinct (numbered : Numbered used a) : (used ++ a.freeIds).Nodup :=
  numbered.handedOut.nodup_iff.mpr List.nodup_range'

theorem mem_iff (numbered : Numbered used a) (id : Nat) :
    id ∈ used ∨ id ∈ a.freeIds ↔ a.config.reservedCount ≤ id ∧ id < a.nextId := by
  have next := numbered.next
  rw [← List.mem_append, numbered.handedOut.mem_iff, List.mem_range'_1]
  omega

theorem usable (numbered : Numbered used a) (given : id ∈ used ∨ id ∈ a.freeIds) :
    a.config.reservedCount ≤ id ∧ id < a.config.maxTextureId := by
  have bounds := (numbered.mem_iff id).mp given
  have next := numbered.next
  omega

/-- No id is in use and given back. -/
theorem not_mem_of_mem_freeIds (numbered : Numbered used a) (isFree : id ∈ a.freeIds) : id ∉ used :=
  fun inUse => (List.nodup_append.mp numbered.distinct).2.2 id inUse id isFree rfl

theorem same (numbered : Numbered used a) (same : SameIds a b) : Numbered used b where
  registered := fun id => by rw [same.registered, numbered.registered]
  handedOut := by
    rw [same.config, same.freeIds, same.nextId]
    exact numbered.handedOut
  next := by
    rw [same.config, same.nextId]
    exact numbered.next

/-- An id comes into use. -/
theorem handOut {left : List Nat} {later : Nat} (numbered : Numbered used a) (inside : id < a.slots.size)
    (handedOut : (id :: used ++ left).Perm (List.range' a.config.reservedCount (later - a.config.reservedCount)))
    (next : a.config.reservedCount ≤ later ∧ later ≤ a.config.maxTextureId) : Numbered (id :: used)
      (({ a with freeIds := left, nextId := later }.modifySlot id fun _ => .fresh).setEntry id .blank) where
  registered := by
    intro other
    rw [List.mem_cons]
    by_cases same : other = id
    · subst same
      rw [slot_setEntry, slot_modifySlot_self (a := { a with freeIds := left, nextId := later }) inside]
      exact iff_of_true (Or.inl rfl) rfl
    · have slotOf := ((edits_modifySlot { a with freeIds := left, nextId := later } id fun _ => .fresh).trans
        (edits_setEntry _ id .blank)).slotOf other same
      rw [slotOf, or_iff_right same]
      exact numbered.registered other
  handedOut := handedOut
  next := next

/-- Either all usable ids are in use and the overflow id is given, or one of them that is not in use is handed out. -/
theorem register (numbered : Numbered used a) (size : a.slots.size = a.config.maxTextureId) :
    (a.register = (overflowId, a) ∧
      ∀ id, a.config.reservedCount ≤ id → id < a.config.maxTextureId → id ∈ used) ∨
    (a.config.reservedCount ≤ a.register.1 ∧ a.register.1 < a.config.maxTextureId) ∧ a.register.1 ∉ used ∧
      Numbered (a.register.1 :: used) a.register.2 := by
  have next := numbered.next
  rcases isFree : a.freeIds with _ | ⟨first, rest⟩
  · by_cases more : a.nextId < a.config.maxTextureId
    · right
      have fresh : a.nextId ∉ used := fun inUse => by
        have below := (numbered.mem_iff a.nextId).mp (Or.inl inUse)
        omega
      have handedOut : (a.nextId :: used ++ []).Perm
          (List.range' a.config.reservedCount (a.nextId + 1 - a.config.reservedCount)) := by
        have before := numbered.handedOut
        rw [isFree, List.append_nil] at before
        have last : a.config.reservedCount + 1 * (a.nextId - a.config.reservedCount) = a.nextId := by omega
        rw [List.append_nil, Nat.succ_sub next.1, List.range'_concat, last]
        exact (before.cons a.nextId).trans (List.perm_append_singleton _ _).symm
      have registered : a.register = (a.nextId, ({ a with freeIds := [], nextId := a.nextId + 1 }.modifySlot a.nextId
          fun _ => .fresh).setEntry a.nextId .blank) := by
        simp only [Atlas.register, nextFree, isFree, more, ↓reduceIte]
      rw [registered]
      exact ⟨⟨next.1, more⟩, fresh, numbered.handOut (size ▸ more) handedOut ⟨by omega, by omega⟩⟩
    · left
      refine ⟨by simp only [Atlas.register, nextFree, isFree, more, ↓reduceIte], fun id lower upper => ?_⟩
      have given := (numbered.mem_iff id).mpr ⟨lower, by omega⟩
      rw [isFree] at given
      exact given.resolve_right List.not_mem_nil
  · right
    have member : first ∈ a.freeIds := by rw [isFree]; exact List.mem_cons_self
    have usable := numbered.usable (Or.inr member)
    have handedOut : (first :: used ++ rest).Perm
        (List.range' a.config.reservedCount (a.nextId - a.config.reservedCount)) := by
      have before := numbered.handedOut
      rw [isFree] at before
      exact List.perm_middle.symm.trans before
    have registered : a.register = (first, ({ a with freeIds := rest, nextId := a.nextId }.modifySlot first
        fun _ => .fresh).setEntry first .blank) := by
      simp only [Atlas.register, nextFree, isFree]
    rw [registered]
    exact ⟨usable, numbered.not_mem_of_mem_freeIds member, numbered.handOut (size ▸ usable.2) handedOut next⟩

/-- An id that is in use is given back. -/
theorem giveBack (numbered : Numbered used a) (registered : (a.slot id).isRegistered = true) :
    Numbered (used.erase id) { a.forget id Slot.discarded with freeIds := id :: a.freeIds } := by
  have empties : Empties id (a.slot id).unplaced.discarded a (a.forget id Slot.discarded) := empties_discard registered
  generalize a.forget id Slot.discarded = left at empties
  have inUse := (numbered.registered id).mpr registered
  have distinct := (List.nodup_append.mp numbered.distinct).1
  refine ⟨?_, ?_, ?_⟩
  · intro other
    show other ∈ used.erase id ↔ (left.slot other).isRegistered = true
    rw [distinct.mem_erase_iff]
    by_cases same : other = id
    · subst same
      rw [empties.slot]
      exact iff_of_false (fun both => both.1 rfl) Bool.false_ne_true
    · rw [empties.edits.slotOf other same, and_iff_right same]
      exact numbered.registered other
  · show (used.erase id ++ id :: a.freeIds).Perm
      (List.range' left.config.reservedCount (left.nextId - left.config.reservedCount))
    rw [empties.edits.config, empties.nextId]
    exact List.perm_middle.trans (((List.perm_cons_erase inUse).symm.append_right a.freeIds).trans numbered.handedOut)
  · show left.config.reservedCount ≤ left.nextId ∧ left.nextId ≤ left.config.maxTextureId
    rw [empties.edits.config, empties.nextId]
    exact numbered.next

/-- A new atlas has handed out no id. -/
theorem ofImage {c : Config} (valid : c.validate = .ok ()) (alignment handle tableBuffer : Nat) :
    Numbered [] (Atlas.ofImage c alignment handle tableBuffer) where
  registered := fun id => by
    rw [slot_ofImage]
    exact iff_of_false List.not_mem_nil Bool.false_ne_true
  handedOut := by
    show List.Perm [] (List.range' c.reservedCount (c.reservedCount - c.reservedCount))
    rw [Nat.sub_self]
    exact .refl []
  next := ⟨Nat.le_refl _, Nat.le_of_lt (bounds_of_validate valid).2.2⟩

theorem of_create {c : Config} {device live : Device} {given : Option Staging} {staging : Staging}
    (created : Atlas.create c device given = .ok (a, live, staging)) : Numbered [] a := by
  obtain ⟨valid, _, _, _, isAtlas⟩ := create_eq_ok_iff.mp created
  rw [isAtlas]
  exact .ofImage valid _ _ _

end Numbered

namespace World

/-- The ids in use behind an action, by what the calls answer: each id handed out, until it is taken back. -/
def inUse (w : World) (used : List Nat) : Action → List Nat
  | .register => if w.atlas.register.1 = overflowId then used else w.atlas.register.1 :: used
  | .remove id =>
    match (w.atlas.remove id).2 with
    | .ok _ => if w.atlas.ignores id then used else used.erase id
    | .error _ => used
  | _ => used

/-- The ids in use behind some actions. -/
def inUseAfter (w : World) (used : List Nat) : List Action → List Nat
  | [] => used
  | action :: rest => (w.step action).inUseAfter (w.inUse used action) rest

end World

namespace Numbered

theorem step (numbered : Numbered used w.atlas) (orderly : w.atlas.Orderly) (action : Action) :
    Numbered (w.inUse used action) (w.step action).atlas := by
  cases action with
  | register =>
    obtain ⟨_, registry⟩ := orderly.registry
    simp only [World.inUse, World.step]
    rcases numbered.register registry.slots_size with ⟨isAtlas, _⟩ | ⟨usable, _, after⟩
    · rw [isAtlas, if_pos rfl]
      exact numbered
    · have notOverflow : w.atlas.register.1 ≠ overflowId := by
        rw [Config.reservedCount] at usable
        rw [overflowId]
        omega
      rw [if_neg notOverflow]
      exact after
  | remove id =>
    simp only [World.inUse, World.step, Atlas.remove]
    by_cases ignores : w.atlas.ignores id = true
    · simp only [ignores, ↓reduceIte]
      exact numbered
    · simp only [ignores, Bool.false_eq_true, ↓reduceIte]
      rcases checked : w.atlas.check id with e | _
      · exact numbered
      · have registered := isRegistered_of_check checked
        have freeIds : (w.atlas.forget id Slot.discarded).freeIds = w.atlas.freeIds :=
          (empties_discard registered).freeIds
        simp only [freeIds]
        exact numbered.giveBack registered
  | set id width height pitch bytes =>
    rw [World.atlas_step_set]
    exact numbered.same (.set w.atlas id width height pitch bytes)
  | clear id => exact numbered.same (.clear w.atlas id)
  | flush => exact numbered.same (.flush orderly w.device w.staging)
  | submit =>
    simp only [World.step]
    split <;> exact numbered
  | reserve count alignment bytes =>
    simp only [World.step]
    split <;> exact numbered
  | requestLayers _ | requestRepack _ | finish | limitMemory _ =>
    exact ⟨numbered.registered, numbered.handedOut, numbered.next⟩

theorem run (numbered : Numbered used w.atlas) (orderly : w.atlas.Orderly) (actions : List Action) :
    Numbered (w.inUseAfter used actions) (actions.foldl World.step w).atlas := by
  induction actions generalizing w used with
  | nil => exact numbered
  | cons action rest ih => exact ih (numbered.step orderly action) (World.succeeds_step orderly action).toOrderly

end Numbered

/-- Whatever is done to an atlas, each id in use belongs to one owner: the ids in use by the answers of the calls are
those that are registered, without repetitions, and the next one handed out is usable and not among them, unless it is
the overflow id. That is the case just if all usable ids are in use. Ids given back are usable and not in use, and each
usable id below the next one is in use or was given back once. -/
theorem numbered_of_create {c : Config} {device live : Device} {given : Option Staging} {staging : Staging}
    (created : Atlas.create c device given = .ok (w.atlas, live, staging)) (actions : List Action) :
    let last := (actions.foldl World.step w).atlas
    let used := w.inUseAfter [] actions
    let Usable (id : Nat) := c.reservedCount ≤ id ∧ id < c.maxTextureId
    used.Nodup ∧ (∀ id, id ∈ used ↔ (last.slot id).isRegistered = true) ∧ (∀ id ∈ used, Usable id) ∧
    (last.register.1 ≠ overflowId → Usable last.register.1 ∧ last.register.1 ∉ used) ∧
    (last.register.1 = overflowId ↔ ∀ id, Usable id → id ∈ used) ∧
    last.freeIds.Nodup ∧ (∀ id ∈ last.freeIds, Usable id ∧ id ∉ used) ∧
    ∀ id, c.reservedCount ≤ id → id < last.nextId → id ∈ used ∨ last.freeIds.count id = 1 := by
  have orderly := orderly_of_create created
  have config : (actions.foldl World.step w).atlas.config = c := by
    rw [(World.fixes_foldl orderly actions).config]
    obtain ⟨_, _, _, _, isAtlas⟩ := create_eq_ok_iff.mp created
    rw [isAtlas]
    rfl
  have numbered := (Numbered.of_create created).run orderly actions
  obtain ⟨_, registry⟩ := (World.orderly_foldl orderly actions).registry
  intro last used Usable
  have usable : ∀ id, id ∈ used ∨ id ∈ last.freeIds → Usable id := by
    intro id given
    have bounds := numbered.usable given
    rw [config] at bounds
    exact bounds
  have distinct := List.nodup_append.mp numbered.distinct
  have answer := numbered.register registry.slots_size
  rw [config] at answer
  refine ⟨distinct.1, numbered.registered, fun id inUse => usable id (Or.inl inUse), ?_, ?_, distinct.2.1,
    fun id isFree => ⟨usable id (Or.inr isFree), numbered.not_mem_of_mem_freeIds isFree⟩, ?_⟩
  · intro notOverflow
    rcases answer with ⟨isAtlas, _⟩ | ⟨isUsable, fresh, _⟩
    · exact absurd (congrArg Prod.fst isAtlas) notOverflow
    · exact ⟨isUsable, fresh⟩
  · rcases answer with ⟨isAtlas, all⟩ | ⟨isUsable, fresh, _⟩
    · exact iff_of_true (congrArg Prod.fst isAtlas) fun id usable => all id usable.1 usable.2
    · refine iff_of_false ?_ fun all => fresh (all _ isUsable)
      intro overflows
      have reserved : last.register.1 < c.reservedCount := by
        rw [overflows]
        exact Nat.succ_pos _
      exact Nat.not_lt.mpr isUsable.1 reserved
  · intro id lower upper
    refine ((numbered.mem_iff id).mpr ⟨config ▸ lower, upper⟩).imp_right fun isFree => ?_
    exact distinct.2.1.count.trans (if_pos isFree)

namespace World

/-- An atlas with two ids to hand out. -/
def spare : World where
  atlas := ofImage { maxTextureId := 4, maxLayers := 1, padding := 1, stagingBytes := 168 } 4 2 1
  device := ((Device.create 1).createBuffer 128).2.added (.create 1024 1)
  staging := sample.staging
  waiting := []
  accepted := fun _ => none
  flushes := 0

/-- Both ids are handed out, and one of them is given back, twice. A reserved id is passed over. -/
def returning : List Action := [.register, .register, .register, .remove 1, .remove 2, .clear 3, .remove 2]

theorem numbered_returning : spare.inUseAfter [] returning = [3] ∧ (returning.foldl step spare).atlas.freeIds = [2] ∧
    (returning.foldl step spare).atlas.register.1 = 2 ∧ 2 ∉ spare.inUseAfter [] returning ∧
    (((returning ++ [Action.register]).foldl step spare).atlas.register.1 = overflowId ↔
      ∀ id, 2 ≤ id ∧ id < 4 → id ∈ spare.inUseAfter [] (returning ++ [Action.register])) := by
  have created : Atlas.create { maxTextureId := 4, maxLayers := 1, padding := 1, stagingBytes := 168 } (.create 1)
      (some sample.staging) = .ok (spare.atlas, spare.device, spare.staging) := by
    refine create_of_unlimited rfl ?_ rfl
    simp [Staging.size, sample, ByteArray.size, Config.tableBytes, entryBytes]
  have numbered := numbered_of_create created returning
  have isNext : (returning.foldl step spare).atlas.register.1 = 2 := by decide +kernel
  refine ⟨by decide +kernel, by decide +kernel, isNext, ?_,
    (numbered_of_create created (returning ++ [Action.register])).2.2.2.2.1⟩
  have fresh := (numbered.2.2.2.1 (by rw [isNext]; decide)).2
  rwa [isNext] at fresh

end World

end TextureLoom.Atlas
