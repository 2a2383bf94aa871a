import TextureLoom.Proofs.Atlas.Queueing
import TextureLoom.Proofs.Atlas.Tabling

set_option autoImplicit false

namespace TextureLoom.Atlas

namespace Device

variable {d after : Device} {staging : Staging} {owned others tables buffers : List Nat} {handle : Nat}

/-- The bytes that each image takes. -/
def byteCounts (d : Device) : List Nat := d.images.map fun entry => entry.2.byteCount

/-- The device has just the images and buffers given, each once, under handles that it gave out, and the bytes of its
images add up to the memory in use. -/
structure Accounts (d : Device) (owned tables : List Nat) : Prop where
  images : d.images.keys.Perm owned
  buffers : d.buffers.keys.Perm tables
  distinct : owned.Nodup ∧ tables.Nodup
  known : ∀ handle ∈ owned ++ tables, handle ≤ d.handles
  memory : d.memoryUsed = d.byteCounts.sum

/-- The devices have images of the same sizes, and buffers, under the same handles. -/
structure Alike (d after : Device) : Prop where
  images : after.images.keys = d.images.keys
  buffers : after.buffers.keys = d.buffers.keys
  byteCounts : after.byteCounts = d.byteCounts
  handles : after.handles = d.handles
  memoryUsed : after.memoryUsed = d.memoryUsed

namespace Alike

theorem refl (d : Device) : d.Alike d := ⟨rfl, rfl, rfl, rfl, rfl⟩

theorem trans {last : Device} (first : d.Alike after) (second : after.Alike last) : d.Alike last where
  images := second.images.trans first.images
  buffers := second.buffers.trans first.buffers
  byteCounts := second.byteCounts.trans first.byteCounts
  handles := second.handles.trans first.handles
  memoryUsed := second.memoryUsed.trans first.memoryUsed

/-- An image is changed, but not in its size. -/
theorem modifyImage (d : Device) (handle : Nat) {change : DeviceImage → DeviceImage}
    (sameSize : ∀ img, (change img).byteCount = img.byteCount) : d.Alike (d.modifyImage handle change) where
  images := Table.keys_modify handle change d.images
  buffers := rfl
  byteCounts := by
    show (Table.modify handle change d.images).map (fun entry => entry.2.byteCount) =
      d.images.map fun entry => entry.2.byteCount
    induction d.images with
    | nil => rfl
    | cons entry rest ih =>
      rw [Table.modify]
      split
      · rw [List.map_cons, List.map_cons, sameSize]
      · rw [List.map_cons, List.map_cons, ih]
  handles := rfl
  memoryUsed := rfl

theorem apply (d : Device) (staging : Staging) (c : Command) : d.Alike (d.apply staging c) := by
  cases c with
  | imageBarrier image old new layers => exact .modifyImage d image fun _ => rfl
  | copyImage source target extent layers =>
    rw [Device.apply]
    split
    · exact .refl d
    · exact .modifyImage d target fun _ => by rw [DeviceImage.byteCount, copyLayers_side, copyLayers_layers]; rfl
  | copyToImage offset target layer x y width height => exact .modifyImage d target fun _ => rfl
  | copyToBuffer offset target count => exact ⟨rfl, Table.keys_modify target _ d.buffers, rfl, rfl, rfl⟩
  | bufferBarrier buffer => exact .refl d

theorem submit (d : Device) (staging : Staging) (commands : List Command) :
    d.Alike (d.submit staging commands).1 := by
  induction commands generalizing d with
  | nil => exact .refl d
  | cons c rest ih =>
    rw [Device.submit]
    split
    · exact .refl d
    · exact (apply d staging c).trans (ih _)

end Alike

namespace Accounts

theorem create (alignment : Nat) : (Device.create alignment).Accounts [] [] where
  images := .refl []
  buffers := .refl []
  distinct := ⟨List.nodup_nil, List.nodup_nil⟩
  known := fun _ member => absurd member List.not_mem_nil
  memory := rfl

theorem perm (accounts : d.Accounts owned tables) (sameImages : owned.Perm others) (sameBuffers : tables.Perm buffers) :
    d.Accounts others buffers where
  images := accounts.images.trans sameImages
  buffers := accounts.buffers.trans sameBuffers
  distinct := ⟨sameImages.nodup_iff.mp accounts.distinct.1, sameBuffers.nodup_iff.mp accounts.distinct.2⟩
  known := fun handle member => accounts.known handle ((sameImages.append sameBuffers).mem_iff.mpr member)
  memory := accounts.memory

theorem alike (accounts : d.Accounts owned tables) (alike : d.Alike after) : after.Accounts owned tables where
  images := alike.images ▸ accounts.images
  buffers := alike.buffers ▸ accounts.buffers
  distinct := accounts.distinct
  known := fun handle member => alike.handles ▸ accounts.known handle member
  memory := by rw [alike.memoryUsed, alike.byteCounts, accounts.memory]

theorem mem_iff (accounts : d.Accounts owned tables) (handle : Nat) :
    handle ∈ owned ↔ (d.images.get? handle).isSome := by
  rw [Table.isSome_get?, accounts.images.mem_iff]

/-- A handle given out next is that of no image and no buffer. -/
theorem fresh (accounts : d.Accounts owned tables) : d.handles + 1 ∉ owned ++ tables :=
  fun member => Nat.not_succ_le_self _ (accounts.known _ member)

theorem createImage (accounts : d.Accounts owned tables) {side layers : Nat}
    (created : d.createImage side layers = .ok (handle, after)) : after.Accounts (handle :: owned) tables := by
  obtain ⟨rfl, rfl⟩ := eq_of_createImage created
  have isNew := accounts.fresh
  rw [List.mem_append, not_or] at isNew
  have absent : d.handles + 1 ∉ d.images.keys := fun member => isNew.1 (accounts.images.mem_iff.mp member)
  have entries : (d.added (.create side layers)).images = (d.handles + 1, .create side layers) :: d.images := by
    rw [added, Table.insert, Table.erase_of_not_mem absent]
  refine ⟨?_, accounts.buffers, ⟨List.nodup_cons.mpr ⟨isNew.1, accounts.distinct.1⟩, accounts.distinct.2⟩, ?_, ?_⟩
  · rw [entries]
    exact accounts.images.cons _
  · intro other member
    rcases List.mem_cons.mp member with rfl | before
    · exact Nat.le_refl _
    · exact Nat.le_succ_of_le (accounts.known other before)
  · rw [byteCounts, entries, List.map_cons, List.sum_cons, Nat.add_comm]
    exact congrArg (· + _) accounts.memory

theorem destroyImage (accounts : d.Accounts (handle :: owned) tables) :
    (d.destroyImage handle).Accounts owned tables := by
  obtain ⟨img, found⟩ := Option.isSome_iff_exists.mp ((accounts.mem_iff handle).mp List.mem_cons_self)
  have once : d.images.keys.Nodup := accounts.images.nodup_iff.mpr accounts.distinct.1
  have entries := Table.perm_cons_erase once found
  have distinct := List.nodup_cons.mp accounts.distinct.1
  simp only [Device.destroyImage, found]
  refine ⟨?_, accounts.buffers, ⟨distinct.2, accounts.distinct.2⟩, ?_, ?_⟩
  · have isImage := accounts.images.mem_iff.mpr List.mem_cons_self
    exact ((Table.keys_perm_cons_erase once isImage).symm.trans accounts.images).cons_inv
  · exact fun other member => accounts.known other (List.mem_cons_of_mem handle member)
  · have total : d.byteCounts.sum = img.byteCount + ((d.images.erase handle).map fun entry => entry.2.byteCount).sum :=
      (entries.map fun entry : Nat × DeviceImage => entry.2.byteCount).sum_nat
    show d.memoryUsed - img.byteCount = ((d.images.erase handle).map fun entry => entry.2.byteCount).sum
    rw [accounts.memory, total, Nat.add_sub_cancel_left]

theorem destroyImages {handles : List Nat} (accounts : d.Accounts (handles ++ owned) tables) :
    (handles.foldl Device.destroyImage d).Accounts owned tables := by
  induction handles generalizing d with
  | nil => exact accounts
  | cons handle rest ih => exact ih accounts.destroyImage

theorem createBuffer (accounts : d.Accounts owned tables) (count : Nat) :
    (d.createBuffer count).2.Accounts owned ((d.createBuffer count).1 :: tables) := by
  have isNew := accounts.fresh
  rw [List.mem_append, not_or] at isNew
  have absent : d.handles + 1 ∉ d.buffers.keys := fun member => isNew.2 (accounts.buffers.mem_iff.mp member)
  refine ⟨accounts.images, ?_, ⟨accounts.distinct.1, List.nodup_cons.mpr ⟨isNew.2, accounts.distinct.2⟩⟩, ?_,
    accounts.memory⟩
  · show (Table.insert d.buffers (d.handles + 1) _).keys.Perm _
    rw [Table.insert, Table.erase_of_not_mem absent]
    exact accounts.buffers.cons _
  · intro other member
    rcases List.mem_append.mp member with isImage | isBuffer
    · exact Nat.le_succ_of_le (accounts.known other (List.mem_append_left _ isImage))
    · rcases List.mem_cons.mp isBuffer with rfl | before
      · exact Nat.le_refl _
      · exact Nat.le_succ_of_le (accounts.known other (List.mem_append_right _ before))

theorem destroyBuffer (accounts : d.Accounts owned (handle :: tables)) :
    (d.destroyBuffer handle).Accounts owned tables := by
  have distinct := List.nodup_cons.mp accounts.distinct.2
  refine ⟨accounts.images, ?_, ⟨accounts.distinct.1, distinct.2⟩, ?_, accounts.memory⟩
  · have once : d.buffers.keys.Nodup := accounts.buffers.nodup_iff.mpr accounts.distinct.2
    have isBuffer := accounts.buffers.mem_iff.mpr List.mem_cons_self
    exact ((Table.keys_perm_cons_erase once isBuffer).symm.trans accounts.buffers).cons_inv
  · intro other member
    refine accounts.known other ?_
    rcases List.mem_append.mp member with isImage | isBuffer
    · exact List.mem_append_left _ isImage
    · exact List.mem_append_right _ (List.mem_cons_of_mem handle isBuffer)

end Accounts

theorem get?_destroyImages {handles : List Nat} (d : Device) (spared : handle ∉ handles) :
    (handles.foldl destroyImage d).images.get? handle = d.images.get? handle := by
  induction handles generalizing d with
  | nil => rfl
  | cons first rest ih =>
    rw [List.mem_cons, not_or] at spared
    exact (ih _ spared.2).trans ((destroyImage_keeps d first).2.2.2 handle spared.1)

end Device

/-- The images that a command names. -/
def Command.images : Command → List Nat
  | .imageBarrier image _ _ _ => [image]
  | .copyImage source target _ _ => [source, target]
  | .copyToImage _ target _ _ _ _ _ => [target]
  | .copyToBuffer _ _ _ | .bufferBarrier _ => []

/-- The images that an atlas holds: those that go once the device has finished, that of a running repack, and the live
one. -/
def holdings (a : Atlas) : List Nat := a.retired ++ (a.repack.map (·.image.handle)).toList ++ [a.image.handle]

section

variable {a b : Atlas} {id : Nat} {r : Repack}

theorem destroy_eq (a : Atlas) (d : Device) :
    a.destroy d = (a.holdings.foldl Device.destroyImage d).destroyBuffer a.tableBuffer := rfl

theorem live_mem_holdings (a : Atlas) : a.image.handle ∈ a.holdings := List.mem_append_right _ List.mem_cons_self

theorem repack_mem_holdings (running : a.repack = some r) : r.image.handle ∈ a.holdings := by
  refine List.mem_append_left _ (List.mem_append_right _ ?_)
  rw [running]
  exact List.mem_cons_self

/-- Of a running repack, the image is the same. -/
theorem holdings_mapRepack (a : Atlas) (change : Repack → Repack)
    (same : ∀ r, (change r).image.handle = r.image.handle) :
    holdings { a with repack := a.repack.map change } = a.holdings := by
  have handles : (a.repack.map change).map (·.image.handle) = a.repack.map (·.image.handle) := by
    rw [Option.map_map]
    exact congrArg (fun handleOf => a.repack.map handleOf) (funext same)
  rw [holdings, holdings, handles]

theorem holdings_showPlace (a : Atlas) (id : Nat) : (a.showPlace id).holdings = a.holdings := by
  unfold showPlace
  split <;> rfl

/-- The image shown so far is held on, and that of the repack is held as the live one. -/
theorem holdings_adopt (running : a.repack = some r) : (a.adopt r).holdings.Perm a.holdings := by
  have adopted : (a.adopt r).image = r.image ∧ (a.adopt r).retired = a.retired ++ [a.image.handle] ∧
      (a.adopt r).repack = none := by
    let Adopted (x : Atlas) := x.image = r.image ∧ x.retired = a.retired ++ [a.image.handle] ∧ x.repack = none
    have settled : Adopted ((List.range a.slots.size).foldl (settle r.places)
        { a with image := r.image, retired := a.retired ++ [a.image.handle], repack := none }) := by
      refine List.foldlRecOn (motive := Adopted) _ (settle r.places) ⟨rfl, rfl, rfl⟩ fun x before id _ => ?_
      have edits := edits_settle r.places x id
      refine ⟨edits.image.trans before.1, edits.retired.trans before.2.1, ?_⟩
      rcases running : (settle r.places x id).repack with _ | other
      · rfl
      · obtain ⟨old, isOld, _⟩ := edits.repack other running
        cases isOld.symm.trans before.2.2
    exact settled
  obtain ⟨image, retired, repack⟩ := adopted
  rw [holdings, holdings, image, retired, repack, running]
  show (a.retired ++ [a.image.handle] ++ [] ++ [r.image.handle]).Perm
    (a.retired ++ [r.image.handle] ++ [a.image.handle])
  rw [List.append_nil, List.append_assoc, List.append_assoc]
  exact (List.Perm.swap _ _ _).append_left a.retired

/-- Another image is held in the place of the live one, which is held on. -/
theorem holdings_enlarged (a : Atlas) (image : OwnedImage) :
    ({ Frame.refreshEntries { a with image, retired := a.retired ++ [a.image.handle] } with
      tableStale := true }.rebuildBins).holdings.Perm (image.handle :: a.holdings) := by
  rw [enlarged_eq]
  show (a.retired ++ [a.image.handle] ++ (a.repack.map (·.image.handle)).toList ++ [image.handle]).Perm
    (image.handle :: (a.retired ++ (a.repack.map (·.image.handle)).toList ++ [a.image.handle]))
  refine (List.perm_append_singleton _ _).trans (List.Perm.cons _ ?_)
  rw [List.append_assoc, List.append_assoc]
  exact (List.perm_append_comm).append_left a.retired

end

namespace Frame

variable {f g next : Frame} {rest tables : List Nat} {commands : List Command}

/-- A flush takes images from the device and gives none back, and its commands name only images that the atlas
holds. -/
structure Acquires (f g : Frame) : Prop where
  accounts : ∀ rest tables, f.device.Accounts (f.atlas.holdings ++ rest) tables →
    g.device.Accounts (g.atlas.holdings ++ rest) tables
  holds : f.atlas.holdings ⊆ g.atlas.holdings
  names : ∀ c ∈ g.commands.toList, c ∈ f.commands.toList ∨ c.images ⊆ g.atlas.holdings

namespace Acquires

/-- Neither device nor commands are different, and the atlas holds the same images. -/
theorem of_perm (device : g.device = f.device) (commands : g.commands = f.commands)
    (holdings : g.atlas.holdings.Perm f.atlas.holdings) : f.Acquires g where
  accounts := by
    intro rest tables accounts
    rw [device]
    exact accounts.perm (holdings.symm.append_right rest) (.refl tables)
  holds := holdings.symm.subset
  names := fun c member => Or.inl (commands ▸ member)

theorem of_eq (device : g.device = f.device) (commands : g.commands = f.commands)
    (holdings : g.atlas.holdings = f.atlas.holdings) : f.Acquires g := .of_perm device commands (.of_eq holdings)

/-- An image is created and held. -/
theorem of_created {side layers handle : Nat} (created : f.device.createImage side layers = .ok (handle, g.device))
    (commands : g.commands = f.commands) (holdings : g.atlas.holdings.Perm (handle :: f.atlas.holdings)) :
    f.Acquires g where
  accounts := fun rest tables accounts =>
    (accounts.createImage created).perm (holdings.symm.append_right rest) (.refl tables)
  holds := fun _ held => holdings.mem_iff.mpr (List.mem_cons_of_mem handle held)
  names := fun _ member => Or.inl (commands ▸ member)

theorem record (f : Frame) (named : ∀ c ∈ commands, c.images ⊆ f.atlas.holdings) : f.Acquires (f.record commands) where
  accounts := fun _ _ accounts => accounts
  holds := fun _ held => held
  names := by
    intro c member
    rw [Frame.record, Array.toList_appendList] at member
    exact (List.mem_append.mp member).imp_right (named c)

theorem refl (f : Frame) : f.Acquires f := .of_eq rfl rfl rfl

theorem trans (first : f.Acquires g) (second : g.Acquires next) : f.Acquires next where
  accounts := fun rest tables accounts => second.accounts rest tables (first.accounts rest tables accounts)
  holds := fun _ held => second.holds (first.holds held)
  names := by
    intro c member
    rcases second.names c member with earlier | named
    · exact (first.names c earlier).imp_right fun named _ isNamed => second.holds (named isNamed)
    · exact Or.inr named

end Acquires

theorem images_turn (img : OwnedImage) (layout : Layout) : ∀ c ∈ (img.turn layout).2, c.images = [img.handle] := by
  unfold OwnedImage.turn
  split
  · exact fun _ member => absurd member List.not_mem_nil
  · intro c member
    cases List.mem_singleton.mp member
    rfl

theorem images_copyCommands (old new : OwnedImage) :
    ∀ c ∈ (copyCommands old new).1, c.images ⊆ [old.handle, new.handle] := by
  intro c member
  simp only [copyCommands, List.mem_append, List.mem_singleton] at member
  have turned : ∀ (img : OwnedImage) (layout : Layout), img.handle ∈ [old.handle, new.handle] →
      c ∈ (img.turn layout).2 → c.images ⊆ [old.handle, new.handle] := by
    intro img layout isNamed isTurn
    rw [images_turn img layout c isTurn]
    exact List.cons_subset.mpr ⟨isNamed, List.nil_subset _⟩
  rcases member with (((first | second) | rfl) | third) | fourth
  · exact turned _ _ (by simp) first
  · exact turned _ _ (by simp) second
  · simp [Command.images]
  · exact turned _ _ (by simp) third
  · exact turned _ _ (by simp) fourth

theorem acquires_announce (f : Frame) (event : Event) : f.Acquires (f.announce event) :=
  .of_eq (announce_keeps f event).2.2 (announce_keeps f event).2.1 (by rw [announce_atlas])

theorem acquires_turnLive (f : Frame) (layout : Layout) : f.Acquires (f.turnLive layout) := by
  let turned : Frame := f.modifyAtlas fun a => { a with image := (f.atlas.image.turn layout).1 }
  have held : turned.atlas.holdings = f.atlas.holdings := by
    show f.atlas.retired ++ _ ++ [(f.atlas.image.turn layout).1.handle] = _
    rw [OwnedImage.turn_handle]
    rfl
  have recorded : turned.Acquires (turned.record (f.atlas.image.turn layout).2) := by
    refine .record turned fun c member => ?_
    rw [held, images_turn f.atlas.image layout c member]
    exact List.cons_subset.mpr ⟨live_mem_holdings f.atlas, List.nil_subset _⟩
  have kept : f.Acquires turned := .of_eq rfl rfl held
  exact kept.trans recorded

theorem acquires_turnRepack (f : Frame) (layout : Layout) : f.Acquires (f.turnRepack layout) := by
  unfold turnRepack
  split
  · exact .refl f
  · rename_i r running
    let turned : Frame := f.modifyAtlas fun a => { a with repack := some { r with image := (r.image.turn layout).1 } }
    have held : turned.atlas.holdings = f.atlas.holdings := by
      show f.atlas.retired ++ [(r.image.turn layout).1.handle] ++ [f.atlas.image.handle] = _
      rw [OwnedImage.turn_handle, holdings, running]
      rfl
    have recorded : turned.Acquires (turned.record (r.image.turn layout).2) := by
      refine .record turned fun c member => ?_
      rw [held, images_turn r.image layout c member]
      exact List.cons_subset.mpr ⟨repack_mem_holdings running, List.nil_subset _⟩
    have kept : f.Acquires turned := .of_eq rfl rfl held
    exact kept.trans recorded

theorem acquires_stage {count start : Nat} {bytes : ByteArray} (found : f.stage count bytes = some (start, next)) :
    f.Acquires next :=
  .of_eq (keeps_of_stage found).2.1 (keeps_of_stage found).1 (by rw [atlas_of_stage found])

theorem Work.acquires (work : Work f g) : f.Acquires g := by
  cases work with
  | announce event => exact acquires_announce f event
  | @start _ _ plan handle device idle _ _ _ created =>
    refine .of_created created rfl ?_
    show (f.atlas.retired ++ [handle] ++ [f.atlas.image.handle]).Perm (handle :: f.atlas.holdings)
    rw [holdings, idle]
    show (f.atlas.retired ++ [handle] ++ [f.atlas.image.handle]).Perm
      (handle :: (f.atlas.retired ++ [] ++ [f.atlas.image.handle]))
    rw [List.append_nil, List.append_assoc]
    exact List.perm_middle
  | @enlarge capacity handle device _ created =>
    have copied := copyCommands_image f.atlas.image ⟨handle, capacity, .undefined⟩
    have held := holdings_enlarged f.atlas (copyCommands f.atlas.image ⟨handle, capacity, .undefined⟩).2
    rw [copied.1] at held
    let grown : Frame := ({ f with device }).modifyAtlas fun a =>
      { refreshEntries { a with
          image := (copyCommands f.atlas.image ⟨handle, capacity, .undefined⟩).2
          retired := a.retired ++ [f.atlas.image.handle] } with tableStale := true }.rebuildBins
    have acquired : f.Acquires grown := .of_created created rfl held
    refine acquired.trans (.record grown fun c member image isNamed => held.mem_iff.mpr ?_)
    rcases List.mem_cons.mp (images_copyCommands _ _ c member isNamed) with rfl | isNew
    · exact List.mem_cons_of_mem handle (live_mem_holdings f.atlas)
    · cases List.mem_singleton.mp isNew
      exact List.mem_cons_self
  | take => exact .of_eq rfl rfl (holdings_mapRepack { f.atlas with pending := _ } _ fun _ => rfl)
  | place _ _ found =>
    obtain ⟨_, _, rfl⟩ := Option.map_eq_some_iff.mp found
    exact .of_eq rfl rfl rfl
  | requeuePlanned id => exact .of_eq rfl rfl (holdings_mapRepack f.atlas _ fun _ => rfl)
  | @upload id start t p next _ _ staged =>
    let turned := next.turnLive .transferTarget
    have uploads : turned.Acquires (turned.record [uploadCommand turned.atlas.image start p]) := by
      refine .record turned fun c member => ?_
      cases List.mem_singleton.mp member
      exact List.cons_subset.mpr ⟨live_mem_holdings turned.atlas, List.nil_subset _⟩
    refine (((acquires_stage staged).trans (acquires_turnLive next .transferTarget)).trans uploads).trans ?_
    exact .of_eq rfl rfl (holdings_showPlace _ id)
  | @uploadPlanned r id start t p next running _ _ staged =>
    have turned := (acquires_stage staged).trans (acquires_turnRepack next .transferTarget)
    refine turned.trans (.record _ fun c member => ?_)
    cases List.mem_singleton.mp member
    exact List.cons_subset.mpr ⟨turned.holds (repack_mem_holdings running), List.nil_subset _⟩
  | _ => exact .of_eq rfl rfl rfl

theorem acquires_adoptReady (f : Frame) : f.Acquires f.adoptReady := by
  unfold adoptReady
  split
  · exact .refl f
  · rename_i r running
    split
    · have adopted : f.Acquires (f.modifyAtlas (·.adopt r)) := .of_perm rfl rfl (holdings_adopt running)
      exact adopted.trans (acquires_announce _ _)
    · exact .refl f

theorem acquires_uploadTable (f : Frame) : f.Acquires f.uploadTable := by
  unfold uploadTable
  split
  · dsimp only
    split
    · exact acquires_announce f _
    · rename_i start next found
      have uploads : next.Acquires (next.record
          [.copyToBuffer start f.atlas.tableBuffer f.atlas.config.tableBytes, .bufferBarrier f.atlas.tableBuffer]) := by
        refine .record next fun c member => ?_
        rcases List.mem_cons.mp member with rfl | barrier
        · exact List.nil_subset _
        · cases List.mem_singleton.mp barrier
          exact List.nil_subset _
      -- The frame behind the staging has the atlas of `f`, which the commands name.
      rw [← atlas_of_stage found] at uploads ⊢
      exact ((acquires_stage found).trans uploads).trans (.of_eq rfl rfl rfl)
  · exact .refl f

theorem acquires_finishRepack (f : Frame) (written : Bool) : f.Acquires (f.finishRepack written) := by
  have turned : f.Acquires (if written then f.turnRepack .shaderRead else f) := by
    split
    · exact acquires_turnRepack f .shaderRead
    · exact .refl f
  refine turned.trans (.of_eq rfl rfl (holdings_mapRepack _ _ fun r => ?_))
  split <;> rfl

theorem acquires_flush (f : Frame) : f.Acquires f.flush := by
  obtain ⟨g, written, works, isFlush⟩ := works_flush f
  rw [isFlush]
  have worked : f.adoptReady.Acquires g :=
    works.induction (.refl _) fun _ _ work before => before.trans work.acquires
  exact ((((acquires_adoptReady f).trans worked).trans (acquires_uploadTable g)).trans (acquires_turnLive _ _)).trans
    (acquires_finishRepack _ written)

end Frame

end TextureLoom.Atlas
