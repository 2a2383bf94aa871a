import TextureLoom.Proofs.Atlas.Accounting
import TextureLoom.Proofs.Atlas.Mirroring

set_option autoImplicit false

namespace TextureLoom.Atlas

/-- The images of one owner behind a change of the device: those that it had and that are left, and the new ones. -/
def Device.owned (held : List Nat) (before after : Device) : List Nat :=
  held.filter (after.images.keys.contains ·) ++ after.images.keys.filter fun image => !before.images.keys.contains image

/-- An atlas on a device that others may use too. -/
structure Member where
  atlas : Atlas
  /-- The images that its calls created and have not destroyed, as the device shows it. -/
  held : List Nat
  /-- What its flushes have recorded since the device last finished for it. -/
  recorded : List Command

/-- The atlas about to be called. Its staging buffer is as all that use it have left it. -/
def Member.world (m : Member) (device : Device) (staging : Staging) : World where
  atlas := m.atlas
  device := device
  staging := staging
  waiting := []
  accepted := fun _ => none
  flushes := 0

/-- The atlas behind a call, and the device. -/
def Member.call (m : Member) (device : Device) (staging : Staging) (action : Action) : Member × Device :=
  let w := (m.world device staging).step action
  let recorded := match action with
    | .finish => []
    | _ => m.recorded ++ w.waiting.flatMap (·.commands)
  (⟨w.atlas, Device.owned m.held device w.device, recorded⟩, w.device)

/-- Atlases on one device, by name. -/
structure Fleet where
  device : Device
  members : Table Nat Member

/-- What is done to the atlases and to their device. -/
inductive Deed where
  | create (name : Nat) (config : Config) (given : Option Staging)
  | call (name : Nat) (action : Action) (staging : Staging)
  | destroy (name : Nat)
  | submit (commands : List Command) (staging : Staging)

/-- The device finishes for an atlas, or the atlas goes. -/
def Deed.Ends (name : Nat) : Deed → Prop
  | .call named .finish _ => named = name
  | .destroy named => named = name
  | _ => False

namespace Fleet

/-- A new device without an atlas. -/
def start (alignment : Nat) : Fleet := ⟨.create alignment, []⟩

def step (f : Fleet) : Deed → Fleet
  | .create name config given =>
    if (f.members.get? name).isSome then f
    else
      match Atlas.create config f.device given with
      | .ok (atlas, device, _) => ⟨device, (name, ⟨atlas, Device.owned [] f.device device, []⟩) :: f.members⟩
      | .error (.config _) => f
      -- The table was created before the image was refused.
      | .error (.image _) =>
        let (buffer, device) := f.device.createBuffer config.tableBytes
        { f with device := device.destroyBuffer buffer }
  | .call name action staging =>
    match f.members.get? name with
    | none => f
    | some m =>
      let (m, device) := m.call f.device staging action
      ⟨device, f.members.insert name m⟩
  | .destroy name =>
    match f.members.get? name with
    | none => f
    | some m => ⟨m.atlas.destroy f.device, f.members.erase name⟩
  | .submit commands staging => { f with device := (f.device.submit staging commands).1 }

end Fleet

/-- The atlases hold the same images and have their table in the same buffer. -/
structure SameHandles (a b : Atlas) : Prop where
  holdings : b.holdings = a.holdings
  tableBuffer : b.tableBuffer = a.tableBuffer

namespace SameHandles

variable {a b c : Atlas}

theorem refl (a : Atlas) : SameHandles a a := ⟨rfl, rfl⟩

theorem trans (first : SameHandles a b) (second : SameHandles b c) : SameHandles a c :=
  ⟨second.holdings.trans first.holdings, second.tableBuffer.trans first.tableBuffer⟩

/-- Of a running repack the image is the same. -/
theorem mapRepack (change : Repack → Repack) (repack : b.repack = a.repack.map change)
    (same : ∀ r, (change r).image.handle = r.image.handle) (image : b.image = a.image) (retired : b.retired = a.retired)
    (tableBuffer : b.tableBuffer = a.tableBuffer) : SameHandles a b where
  holdings := by
    rw [← holdings_mapRepack a change same, Atlas.holdings, Atlas.holdings, repack, image, retired]
  tableBuffer := tableBuffer

theorem dequeue (a : Atlas) (id : Nat) : SameHandles a (a.dequeue id) :=
  .mapRepack (fun r => { r with queue := r.queue.remove id }) rfl (fun _ => rfl) rfl rfl rfl

theorem emptied (a : Atlas) (id : Nat) (f : Slot → Slot) (e : Entry) : SameHandles a (a.emptied id f e) := by
  have unplaced : SameHandles a ((a.releasePlace id).modifySlot id f) := ⟨rfl, rfl⟩
  unfold Atlas.emptied
  generalize (a.releasePlace id).modifySlot id f = b at unplaced
  have dequeued := unplaced.trans (.dequeue b id)
  generalize b.dequeue id = c at dequeued
  exact dequeued.trans ⟨rfl, rfl⟩

theorem releaseResized (a : Atlas) (id width height : Nat) : SameHandles a (a.releaseResized id width height) := by
  rcases releaseResized_cases a id width height with ⟨kept, _⟩ | released
  · rw [kept]
    exact .refl a
  · rw [released]
    exact .mapRepack (fun r => { r with places := r.places.erase id, queue := r.queue.remove id }) rfl (fun _ => rfl)
      rfl rfl rfl

theorem joinRepack (a : Atlas) (id : Nat) : SameHandles a (a.joinRepack id) := by
  refine .mapRepack (fun r => if (r.places.get? id).isSome then { r with queue := r.queue.push id } else r) rfl
    (fun r => ?_) rfl rfl rfl
  split <;> rfl

theorem load (a : Atlas) (id : Nat) (t : Texture) : SameHandles a (a.load id t) := by
  simp only [Atlas.load]
  refine trans ?_ (.joinRepack _ id)
  refine trans (.releaseResized a id t.width t.height) ?_
  generalize a.releaseResized id t.width t.height = released
  split <;> exact ⟨rfl, rfl⟩

theorem set (a : Atlas) (id width height pitch : Nat) (bytes : ByteArray) :
    SameHandles a (a.set id width height pitch bytes).1 := by
  have sets := sets_set a id width height pitch bytes
  generalize a.set id width height pitch bytes = result at sets
  cases sets with
  | ignored _ => exact .refl a
  | refused _ => exact .refl a
  | rejected _ _ => exact .emptied a id Slot.rejected .tooLarge
  | loaded t _ _ _ => exact .load a id t

theorem clear (a : Atlas) (id : Nat) : SameHandles a (a.clear id).1 := by
  unfold Atlas.clear
  split
  · exact .refl a
  · split
    · exact .refl a
    · exact .emptied a id Slot.cleared .blank

theorem remove (a : Atlas) (id : Nat) : SameHandles a (a.remove id).1 := by
  unfold Atlas.remove
  split
  · exact .refl a
  · split
    · exact .refl a
    · have forgotten := emptied a id Slot.discarded .blank
      exact ⟨forgotten.holdings, forgotten.tableBuffer⟩

theorem register (a : Atlas) : SameHandles a a.register.2 := by
  rcases register_eq a with taken | ⟨_, _, handed⟩
  · rw [taken]
    exact .refl a
  · rw [handed]
    exact ⟨rfl, rfl⟩

end SameHandles

section

variable {d after : Device} {held owned others rest : List Nat}

/-- What is taken from the device and given back to it by an owner leaves the images of all others, and those of the
owner are as the device shows them. -/
theorem Device.owned_perm {tables buffers : List Nat} (before : d.Accounts (owned ++ rest) tables)
    (now : after.Accounts (others ++ rest) buffers) (same : held.Perm owned) :
    (Device.owned held d after).Perm others := by
  have distinct := List.nodup_append.mp before.distinct.1
  have distinctNow := List.nodup_append.mp now.distinct.1
  have once : after.images.keys.Nodup := now.images.nodup_iff.mpr now.distinct.1
  have isHeld : ∀ image, image ∈ Device.owned held d after ↔
      image ∈ owned ∧ (image ∈ others ∨ image ∈ rest) ∨
        (image ∈ others ∨ image ∈ rest) ∧ ¬(image ∈ owned ∨ image ∈ rest) := by
    intro image
    rw [Device.owned, List.mem_append, List.mem_filter, List.mem_filter, List.contains_iff_mem, Bool.not_eq_true',
      ← Bool.not_eq_true, List.contains_iff_mem, now.images.mem_iff, before.images.mem_iff, same.mem_iff,
      List.mem_append, List.mem_append]
  refine (List.perm_ext_iff_of_nodup ?_ distinctNow.1).mpr fun image => ?_
  · refine List.nodup_append.mpr ⟨(same.nodup_iff.mpr distinct.1).filter _, once.filter _, ?_⟩
    rintro image isOld other isNew rfl
    have isImage : image ∈ d.images.keys := before.images.mem_iff.mpr
      (List.mem_append_left rest (same.mem_iff.mp (List.mem_filter.mp isOld).1))
    have notImage := (List.mem_filter.mp isNew).2
    rw [List.contains_iff_mem.mpr isImage] at notImage
    cases notImage
  · rw [isHeld]
    have apart : image ∈ owned → image ∉ rest := fun isOwned isRest => distinct.2.2 image isOwned image isRest rfl
    have apartNow : image ∈ others → image ∉ rest :=
      fun isOther isRest => distinctNow.2.2 image isOther image isRest rfl
    constructor
    · rintro (⟨isOwned, isOther | isRest⟩ | ⟨isOther | isRest, isNew⟩)
      · exact isOther
      · exact absurd isRest (apart isOwned)
      · exact isOther
      · exact absurd (Or.inr isRest) isNew
    · intro isOther
      by_cases isOwned : image ∈ owned
      · exact Or.inl ⟨isOwned, Or.inl isOther⟩
      · exact Or.inr ⟨Or.inl isOther, fun known => known.elim isOwned (apartNow isOther)⟩

end

namespace World

variable {w : World} {rest tables : List Nat}

/-- What an action makes of the images of an atlas: the device has those that it holds behind the action, and all that
others have. -/
structure Deals (w v : World) : Prop where
  accounts : ∀ rest tables, w.device.Accounts (w.atlas.holdings ++ rest) tables →
    v.device.Accounts (v.atlas.holdings ++ rest) tables
  tableBuffer : v.atlas.tableBuffer = w.atlas.tableBuffer

theorem deals_flush (w : World) : w.Deals (w.step .flush) where
  accounts := w.frame.acquires_flush.accounts
  tableBuffer := w.fixes_flush.tableBuffer

/-- The device destroys what the atlas held for it to finish. -/
theorem deals_finish (w : World) : w.Deals (w.step .finish) where
  accounts := by
    intro rest tables accounts
    have left : (w.step .finish).atlas.holdings =
        (w.atlas.repack.map (·.image.handle)).toList ++ [w.atlas.image.handle] := by
      have ready := holdings_mapRepack { w.atlas with retired := [] } (fun r =>
        if r.progress = .waiting ∧ r.queue.isEmpty then { r with progress := .ready } else r) fun r => by split <;> rfl
      exact ready
    rw [left]
    refine Device.Accounts.destroyImages ?_
    rw [← List.append_assoc, ← List.append_assoc]
    exact accounts
  tableBuffer := rfl

theorem sameHandles_step (w : World) {action : Action} (noFlush : action ≠ .flush) (noFinish : action ≠ .finish) :
    SameHandles w.atlas (w.step action).atlas := by
  cases action with
  | register => exact .register w.atlas
  | set id width height pitch bytes =>
    rw [atlas_step_set]
    exact .set w.atlas id width height pitch bytes
  | clear id => exact .clear w.atlas id
  | remove id => exact .remove w.atlas id
  | flush => exact absurd rfl noFlush
  | finish => exact absurd rfl noFinish
  | submit =>
    simp only [step]
    split <;> exact .refl _
  | reserve count alignment bytes =>
    simp only [step]
    split <;> exact .refl _
  | requestLayers _ | requestRepack _ | limitMemory _ => exact ⟨rfl, rfl⟩

/-- Only a flush and the end of a frame create or destroy images, and only a flush records a list. -/
theorem alike_step (w : World) {action : Action} (noFlush : action ≠ .flush) (noFinish : action ≠ .finish) :
    w.device.Alike (w.step action).device ∧ (w.step action).waiting ⊆ w.waiting := by
  cases action with
  | set id width height pitch bytes =>
    simp only [step]
    split
    · split <;> exact ⟨.refl _, List.Subset.refl _⟩
    · exact ⟨.refl _, List.Subset.refl _⟩
  | flush => exact absurd rfl noFlush
  | finish => exact absurd rfl noFinish
  | submit =>
    simp only [step]
    split
    · exact ⟨.refl _, List.Subset.refl _⟩
    · rename_i s rest waits
      rw [waits]
      exact ⟨.submit _ _ _, List.subset_cons_self s rest⟩
  | reserve count alignment bytes =>
    simp only [step]
    split <;> exact ⟨.refl _, List.Subset.refl _⟩
  | limitMemory limit => exact ⟨⟨rfl, rfl, rfl, rfl, rfl⟩, List.Subset.refl _⟩
  | register | clear _ | remove _ | requestLayers _ | requestRepack _ => exact ⟨.refl _, List.Subset.refl _⟩

theorem deals_step (w : World) (action : Action) : w.Deals (w.step action) := by
  by_cases isFlush : action = .flush
  · rw [isFlush]
    exact w.deals_flush
  · by_cases isFinish : action = .finish
    · rw [isFinish]
      exact w.deals_finish
    · have same := w.sameHandles_step isFlush isFinish
      refine ⟨fun rest tables accounts => ?_, same.tableBuffer⟩
      rw [same.holdings]
      exact accounts.alike (w.alike_step isFlush isFinish).1

/-- Only the end of a frame gives images up. -/
theorem holdings_subset_step (w : World) {action : Action} (noFinish : action ≠ .finish) :
    w.atlas.holdings ⊆ (w.step action).atlas.holdings := by
  by_cases isFlush : action = .flush
  · rw [isFlush]
    exact w.frame.acquires_flush.holds
  · rw [(w.sameHandles_step isFlush noFinish).holdings]
    exact List.Subset.refl _

/-- A list that is recorded names only images that the atlas then holds. -/
theorem names_step (w : World) (idle : w.waiting = []) {action : Action} (noFinish : action ≠ .finish) :
    ∀ s ∈ (w.step action).waiting, ∀ c ∈ s.commands, c.images ⊆ (w.step action).atlas.holdings := by
  intro s member c recorded
  by_cases isFlush : action = .flush
  · subst isFlush
    rw [waiting_step_flush, idle, List.nil_append] at member
    cases List.mem_singleton.mp member
    exact (w.frame.acquires_flush.names c recorded).resolve_left List.not_mem_nil
  · have waited := (w.alike_step isFlush noFinish).2 member
    rw [idle] at waited
    cases waited

end World

namespace Member

variable {m : Member} {device : Device} {rest tables : List Nat}

/-- The images known to be those of an atlas are the ones that it holds, and its commands name no others. -/
structure Sound (m : Member) : Prop where
  held : m.held.Perm m.atlas.holdings
  recorded : ∀ c ∈ m.recorded, c.images ⊆ m.atlas.holdings

theorem tableBuffer_call (m : Member) (device : Device) (staging : Staging) (action : Action) :
    (m.call device staging action).1.atlas.tableBuffer = m.atlas.tableBuffer :=
  ((m.world device staging).deals_step action).tableBuffer

theorem accounts_call (accounts : device.Accounts (m.atlas.holdings ++ rest) tables) (staging : Staging)
    (action : Action) : (m.call device staging action).2.Accounts
      ((m.call device staging action).1.atlas.holdings ++ rest) tables :=
  ((m.world device staging).deals_step action).accounts rest tables accounts

theorem holdings_subset_call (m : Member) (device : Device) (staging : Staging) {action : Action}
    (noFinish : action ≠ .finish) : m.atlas.holdings ⊆ (m.call device staging action).1.atlas.holdings :=
  (m.world device staging).holdings_subset_step noFinish

theorem Sound.call (sound : m.Sound) (accounts : device.Accounts (m.atlas.holdings ++ rest) tables) (staging : Staging)
    (action : Action) : (m.call device staging action).1.Sound where
  held := Device.owned_perm accounts (accounts_call accounts staging action) sound.held
  recorded := by
    by_cases isFinish : action = .finish
    · subst isFinish
      exact fun _ member => absurd member List.not_mem_nil
    · have recorded : (m.call device staging action).1.recorded =
          m.recorded ++ ((m.world device staging).step action).waiting.flatMap (·.commands) := by
        cases action with
        | finish => exact absurd rfl isFinish
        | _ => rfl
      intro c member
      rw [recorded] at member
      rcases List.mem_append.mp member with before | new
      · exact fun _ isNamed => holdings_subset_call m device staging isFinish (sound.recorded c before isNamed)
      · obtain ⟨s, isList, isCommand⟩ := List.mem_flatMap.mp new
        exact (m.world device staging).names_step rfl isFinish s isList c isCommand

end Member

namespace Fleet

variable {f : Fleet} {name : Nat} {m : Member}

/-- The images that the atlases hold. -/
def images (members : Table Nat Member) : List Nat := members.flatMap fun entry => entry.2.atlas.holdings

/-- The buffers of the tables of the atlases. -/
def tables (members : Table Nat Member) : List Nat := members.map fun entry => entry.2.atlas.tableBuffer

/-- The device has just the images and the buffers of the atlases. -/
structure Sound (f : Fleet) : Prop where
  names : f.members.keys.Nodup
  accounts : f.device.Accounts (images f.members) (tables f.members)
  members : ∀ entry ∈ f.members, Member.Sound entry.2

namespace Sound

theorem start (alignment : Nat) : (start alignment).Sound where
  names := List.nodup_nil
  accounts := .create alignment
  members := fun _ member => absurd member List.not_mem_nil

/-- An atlas among the others. -/
theorem split (sound : f.Sound) (found : f.members.get? name = some m) :
    f.device.Accounts (m.atlas.holdings ++ images (f.members.erase name))
      (m.atlas.tableBuffer :: tables (f.members.erase name)) := by
  have perm := Table.perm_cons_erase sound.names found
  exact sound.accounts.perm (perm.flatMap_right _) (perm.map _)

theorem member (sound : f.Sound) (found : f.members.get? name = some m) : m.Sound :=
  sound.members _ (Table.mem_of_get? found)

/-- The images that an atlas holds are on the device. -/
theorem isSome_of_mem (sound : f.Sound) (found : f.members.get? name = some m) {image : Nat}
    (isHeld : image ∈ m.atlas.holdings) : (f.device.images.get? image).isSome :=
  ((sound.split found).mem_iff image).mp (List.mem_append_left _ isHeld)

theorem create (sound : f.Sound) (name : Nat) (config : Config) (given : Option Staging) :
    (f.step (.create name config given)).Sound := by
  simp only [step]
  split
  · exact sound
  · rename_i isNew
    split
    · rename_i a device staging created
      obtain ⟨_, _, handle, taken, rfl⟩ := create_eq_ok_iff.mp created
      have accounts := (sound.accounts.createBuffer config.tableBytes).createImage taken
      refine ⟨List.nodup_cons.mpr ⟨fun known => isNew (Table.isSome_get?.mpr known), sound.names⟩, accounts, ?_⟩
      intro entry member
      rcases List.mem_cons.mp member with rfl | before
      · have none : f.device.Accounts ([] ++ images f.members) (tables f.members) := sound.accounts
        exact ⟨Device.owned_perm none accounts (.refl []), fun _ member => absurd member List.not_mem_nil⟩
      · exact sound.members entry before
    · exact sound
    · exact ⟨sound.names, (sound.accounts.createBuffer config.tableBytes).destroyBuffer, sound.members⟩

theorem call (sound : f.Sound) (name : Nat) (action : Action) (staging : Staging) :
    (f.step (.call name action staging)).Sound := by
  simp only [step]
  split
  · exact sound
  · rename_i m found
    have before := sound.split found
    refine ⟨Table.nodup_keys_insert sound.names name _, ?_, ?_⟩
    · have after := Member.accounts_call before staging action
      rw [← m.tableBuffer_call f.device staging action] at after
      exact after
    · intro entry member
      rcases List.mem_cons.mp member with rfl | other
      · exact (sound.member found).call before staging action
      · exact sound.members entry (List.mem_filter.mp other).1

theorem destroy (sound : f.Sound) (name : Nat) : (f.step (.destroy name)).Sound := by
  simp only [step]
  split
  · exact sound
  · rename_i m found
    refine ⟨Table.nodup_keys_erase sound.names name, ?_, ?_⟩
    · rw [destroy_eq]
      exact (sound.split found).destroyImages.destroyBuffer
    · exact fun entry member => sound.members entry (List.mem_filter.mp member).1

theorem step (sound : f.Sound) (deed : Deed) : (f.step deed).Sound := by
  cases deed with
  | create name config given => exact sound.create name config given
  | call name action staging => exact sound.call name action staging
  | destroy name => exact sound.destroy name
  | submit commands staging =>
    exact ⟨sound.names, sound.accounts.alike (.submit f.device staging commands), sound.members⟩

theorem run (sound : f.Sound) (deeds : List Deed) : (deeds.foldl Fleet.step f).Sound :=
  List.foldlRecOn (motive := Fleet.Sound) deeds Fleet.step sound fun _ before deed _ => before.step deed

/-- An atlas gives images up only when the device finishes for it or it goes. -/
theorem keeps (found : f.members.get? name = some m) {deed : Deed} (goesOn : ¬deed.Ends name) :
    ∃ n, (f.step deed).members.get? name = some n ∧ m.atlas.holdings ⊆ n.atlas.holdings := by
  have same : ∃ n, f.members.get? name = some n ∧ m.atlas.holdings ⊆ n.atlas.holdings :=
    ⟨m, found, List.Subset.refl _⟩
  cases deed with
  | create other config given =>
    simp only [Fleet.step]
    split
    · exact same
    · rename_i isNew
      have distinct : other ≠ name := by
        rintro rfl
        exact isNew (by rw [found]; rfl)
      split
      · exact ⟨m, (if_neg distinct).trans found, List.Subset.refl _⟩
      · exact same
      · exact same
  | call other action staging =>
    simp only [Fleet.step]
    split
    · exact same
    · rename_i n isOther
      by_cases isName : other = name
      · subst isName
        cases found.symm.trans isOther
        refine ⟨_, Table.get?_insert_self _ _ _, m.holdings_subset_call f.device staging ?_⟩
        rintro rfl
        exact goesOn rfl
      · exact ⟨m, (Table.get?_insert_of_ne _ _ (Ne.symm isName)).trans found, List.Subset.refl _⟩
  | destroy other =>
    simp only [Fleet.step]
    split
    · exact same
    · exact ⟨m, (Table.get?_erase_of_ne _ (Ne.symm goesOn)).trans found, List.Subset.refl _⟩
  | submit commands staging => exact same

theorem mem_held_iff (sound : f.Sound) (found : f.members.get? name = some m) (image : Nat) :
    image ∈ m.held ↔ image ∈ m.atlas.holdings := (sound.member found).held.mem_iff

/-- No image is held by two atlases. -/
theorem not_mem_held (sound : f.Sound) (found : f.members.get? name = some m) {other : Nat} {n : Member}
    (isOther : f.members.get? other = some n) (distinct : other ≠ name) {image : Nat} (isHeld : image ∈ n.held) :
    image ∉ m.held := by
  have among : image ∈ images (f.members.erase name) := by
    refine List.mem_flatMap.mpr ⟨(other, n), ?_, (sound.mem_held_iff isOther image).mp isHeld⟩
    exact Table.mem_of_get? ((Table.get?_erase_of_ne _ distinct).trans isOther)
  rw [sound.mem_held_iff found]
  exact fun own => (List.nodup_append.mp (sound.split found).distinct.1).2.2 image own image among rfl

/-- When an atlas goes, its images and its table go, and nothing else. -/
theorem destroyed (sound : f.Sound) (found : f.members.get? name = some m) :
    (∀ image ∈ m.held, (f.step (.destroy name)).device.images.get? image = none) ∧
    (∀ image, image ∉ m.held → (f.step (.destroy name)).device.images.get? image = f.device.images.get? image) ∧
    (f.step (.destroy name)).device.buffers.get? m.atlas.tableBuffer = none := by
  have stepped : f.step (.destroy name) = ⟨m.atlas.destroy f.device, f.members.erase name⟩ := by
    simp only [Fleet.step, found]
  have after := (sound.step (.destroy name)).accounts
  have before := (sound.split found).distinct
  rw [stepped] at after ⊢
  refine ⟨fun image isHeld => ?_, fun image notHeld => ?_, ?_⟩
  · rw [sound.mem_held_iff found] at isHeld
    have gone : image ∉ images (f.members.erase name) :=
      fun among => (List.nodup_append.mp before.1).2.2 image isHeld image among rfl
    rw [after.mem_iff] at gone
    exact Option.not_isSome_iff_eq_none.mp gone
  · rw [sound.mem_held_iff found] at notHeld
    exact Device.get?_destroyImages f.device notHeld
  · have gone : m.atlas.tableBuffer ∉ (m.atlas.destroy f.device).buffers.keys := by
      rw [after.buffers.mem_iff]
      exact (List.nodup_cons.mp before.2).1
    rw [← Table.isSome_get?] at gone
    exact Option.not_isSome_iff_eq_none.mp gone

end Sound

/-- Whatever is done to atlases that share a device, the images that each has created and not destroyed are its retired
ones, that of its repack and its live one, each once, none of them that of another atlas. All of them are on the device,
and there are no others; those that a command names stay at least until the device finishes for the atlas or the atlas
goes. When it goes, its images and its table are gone, all other images are as before, and the memory in use is what
they take. -/
theorem accounted (alignment : Nat) (deeds : List Deed) :
    let f := deeds.foldl step (start alignment)
    (∀ name m, f.members.get? name = some m →
      (m.held.Perm m.atlas.holdings ∧ m.held.Nodup) ∧
      (∀ image ∈ m.held, (f.device.images.get? image).isSome) ∧
      (∀ other n, f.members.get? other = some n → other ≠ name → ∀ image ∈ n.held, image ∉ m.held) ∧
      (∀ c ∈ m.recorded, ∀ image ∈ c.images, (f.device.images.get? image).isSome ∧
        ∀ deed, ¬deed.Ends name → ((f.step deed).device.images.get? image).isSome) ∧
      let g := f.step (.destroy name)
      (∀ image ∈ m.held, g.device.images.get? image = none) ∧
      (∀ image, image ∉ m.held → g.device.images.get? image = f.device.images.get? image) ∧
      g.device.buffers.get? m.atlas.tableBuffer = none ∧ g.device.memoryUsed = g.device.byteCounts.sum) ∧
    (∀ image, (f.device.images.get? image).isSome → ∃ name m, f.members.get? name = some m ∧ image ∈ m.held) ∧
    f.device.memoryUsed = f.device.byteCounts.sum := by
  intro f
  have sound : f.Sound := (Sound.start alignment).run deeds
  refine ⟨fun name m found => ?_, fun image isImage => ?_, sound.accounts.memory⟩
  · have member := sound.member found
    have distinct := (List.nodup_append.mp (sound.split found).distinct.1).1
    obtain ⟨gone, kept, noTable⟩ := sound.destroyed found
    refine ⟨⟨member.held, member.held.nodup_iff.mpr distinct⟩, ?_, ?_, ?_, gone, kept, noTable,
      (sound.step (.destroy name)).accounts.memory⟩
    · exact fun image isHeld => sound.isSome_of_mem found ((sound.mem_held_iff found image).mp isHeld)
    · exact fun other n isOther distinct image isHeld => sound.not_mem_held found isOther distinct isHeld
    · intro c recorded image isNamed
      have isHeld := member.recorded c recorded isNamed
      refine ⟨sound.isSome_of_mem found isHeld, fun deed goesOn => ?_⟩
      obtain ⟨n, still, holds⟩ := Sound.keeps found goesOn
      exact (sound.step deed).isSome_of_mem still (holds isHeld)
  · obtain ⟨⟨name, m⟩, member, isHeld⟩ := List.mem_flatMap.mp ((sound.accounts.mem_iff image).mpr isImage)
    have found := Table.get?_of_mem sound.names member
    exact ⟨name, m, found, (sound.mem_held_iff found image).mpr isHeld⟩

/-- Two atlases share a device. One of them grows and then goes. -/
def sharing : List Deed :=
  [.create 1 { maxTextureId := 4, maxLayers := 2, padding := 1, stagingBytes := 168 } (some World.sample.staging),
    .create 2 { maxTextureId := 3, maxLayers := 1, padding := 1, stagingBytes := 168 } (some World.sample.staging),
    .call 1 (.requestLayers 2) World.sample.staging, .call 1 .flush World.sample.staging]

theorem accounted_sharing : (∃ m, (sharing.foldl step (start 1)).members.get? 1 = some m ∧ m.held = [2, 5] ∧
    m.recorded ≠ [] ∧ ∀ image ∈ m.held,
      ((sharing.foldl step (start 1)).step (.destroy 1)).device.images.get? image = none) ∧
    (sharing.foldl step (start 1)).device.memoryUsed = (sharing.foldl step (start 1)).device.byteCounts.sum := by
  have accounts := accounted 1 sharing
  have isHeld : ((sharing.foldl step (start 1)).members.get? 1).map (·.held) = some [2, 5] := by decide +kernel
  obtain ⟨m, found, held⟩ := Option.map_eq_some_iff.mp isHeld
  refine ⟨⟨m, found, held, ?_, (accounts.1 1 m found).2.2.2.2.1⟩, accounts.2.2⟩
  have recorded : ((sharing.foldl step (start 1)).members.get? 1).map (·.recorded.isEmpty) = some false := by
    decide +kernel
  rw [found] at recorded
  rintro none
  rw [Option.map_some, none] at recorded
  cases recorded

end Fleet

end TextureLoom.Atlas
