import TextureLoom.Proofs.Atlas.Blanking

set_option autoImplicit false

namespace TextureLoom.Atlas.Device

/-- A request to a device for a change. -/
inductive Request where
  | createImage (side layers : Nat)
  | destroyImage (handle : Nat)
  | createBuffer (count : Nat)
  | destroyBuffer (handle : Nat)
  | limitMemory (limit : Option Nat)
  | submit (staging : Staging) (commands : List Command)

/-- What a device answers. -/
inductive Reply where
  | image (result : Except DeviceError Nat)
  | buffer (handle : Nat)
  | ran (result : Except DeviceError Unit)
  | done

/-- A way to make an image of a side and a number of layers. -/
abbrev Maker := Device → Nat → Nat → Except DeviceError (Nat × Device)

/-- Makes an image with the bytes of all its layers at hand from the start. -/
def createBlanked : Maker := fun d side layers =>
  (d.createImage side layers).map fun (handle, d) => (handle, d.modifyImage handle DeviceImage.blanked)

/-- The device once a request is served, images being made by `make`, and its reply. -/
def serve (make : Maker) (d : Device) : Request → Device × Reply
  | .createImage side layers =>
    match make d side layers with
    | .ok (handle, d) => (d, .image (.ok handle))
    | .error e => (d, .image (.error e))
  | .destroyImage handle => (d.destroyImage handle, .done)
  | .createBuffer count => ((d.createBuffer count).2, .buffer (d.createBuffer count).1)
  | .destroyBuffer handle => (d.destroyBuffer handle, .done)
  | .limitMemory limit => ({ d with memoryLimit := limit }, .done)
  | .submit staging commands => ((d.submit staging commands).1, .ran (d.submit staging commands).2)

def serveAll (make : Maker) : Device → List Request → Device × List Reply
  | d, [] => (d, [])
  | d, request :: rest =>
    let (d, reply) := d.serve make request
    let (d, replies) := serveAll make d rest
    (d, reply :: replies)

/-- All that can be seen of a device: its replies, and behind them the layout of each image and its texels. -/
structure Sight where
  replies : List Reply
  layout? : Nat → Option Layout
  texel? : Nat → Nat → Nat → Nat → Option (List UInt8)

/-- What is seen of a device that is served some requests. -/
def sight (make : Maker) (d : Device) (requests : List Request) : Sight :=
  let (after, replies) := d.serveAll make requests
  ⟨replies, after.layout?, after.texel?⟩

/-- Such a copy is carried out for a request. -/
def OverlooksIn (d : Device) : Request → Prop
  | .submit staging commands => d.SkipsIn staging commands
  | _ => False

instance (d : Device) : DecidablePred d.OverlooksIn
  | .submit staging commands => inferInstanceAs (Decidable (d.SkipsIn staging commands))
  | .createImage .. | .destroyImage .. | .createBuffer .. | .destroyBuffer .. | .limitMemory .. => isFalse id

/-- In the course of some requests a copy is carried out that passes over a layer where the target is not blank. -/
def Overlooks : Device → List Request → Prop
  | _, [] => False
  | d, request :: rest => d.OverlooksIn request ∨ Overlooks (d.serve createImage request).1 rest

instance decidableOverlooks (d : Device) : (requests : List Request) → Decidable (Overlooks d requests)
  | [] => isFalse id
  | request :: rest =>
    have := decidableOverlooks (d.serve createImage request).1 rest
    inferInstanceAs (Decidable (d.OverlooksIn request ∨ _))

/-- The first requests of a run, where the last list of commands may be cut short. -/
inductive UpTo : List Request → List Request → Prop where
  | start (requests : List Request) : UpTo [] requests
  | within (staging : Staging) (commands rest : List Command) (later : List Request) :
      UpTo [.submit staging commands] (.submit staging (commands ++ rest) :: later)
  | next (request : Request) {part requests : List Request} :
      UpTo part requests → UpTo (request :: part) (request :: requests)

variable {d middle : Device} {staging : Staging} {command : Command} {commands : List Command} {requests : List Request}
  {request : Request}

theorem createBlanked_blanked (d : Device) (side layers : Nat) :
    createBlanked d.blanked side layers = (d.createImage side layers).map fun (handle, d) => (handle, d.blanked) := by
  have sameLimit : d.blanked.memoryLimit = d.memoryLimit := rfl
  have sameUse : d.blanked.memoryUsed = d.memoryUsed := rfl
  rw [createBlanked, createImage, createImage, sameLimit, sameUse, apply_ite (Except.map _), apply_ite (Except.map _)]
  refine if_congr Iff.rfl ?_ rfl
  simp only [Except.map, blanked, modifyImage, Table.insert, Table.modify, List.map_cons, Table.map_erase, ↓reduceIte]

/-- A request is served alike with all layers at hand, if no copy passes over a layer meanwhile. -/
theorem serve_blanked (carries : ¬d.OverlooksIn request) :
    d.blanked.serve createBlanked request =
      ((d.serve createImage request).1.blanked, (d.serve createImage request).2) := by
  cases request with
  | createImage side layers =>
    simp only [serve, createBlanked_blanked]
    cases d.createImage side layers <;> rfl
  | destroyImage handle =>
    simp only [serve, destroyImage, get?_blanked]
    cases d.images.get? handle with
    | none => rfl
    | some img => simp only [Option.map_some, blanked, Table.map_erase, DeviceImage.byteCount,
        DeviceImage.blanked_side, DeviceImage.blanked_layers]
  | submit staging commands => simp only [serve, submit_blanked carries]
  | createBuffer count => rfl
  | destroyBuffer handle => rfl
  | limitMemory limit => rfl

theorem serveAll_blanked (carries : ¬Overlooks d requests) :
    d.blanked.serveAll createBlanked requests =
      ((d.serveAll createImage requests).1.blanked, (d.serveAll createImage requests).2) := by
  induction requests generalizing d with
  | nil => rfl
  | cons request rest ih =>
    simp only [serveAll, serve_blanked fun now => carries (.inl now), ih fun later => carries (.inr later)]

theorem sight_blanked (carries : ¬Overlooks d requests) :
    d.blanked.sight createBlanked requests = d.sight createImage requests := by
  simp only [sight, serveAll_blanked carries, layout?_blanked, texel?_blanked]

theorem SkipsIn.append (skips : d.SkipsIn staging commands) (rest : List Command) :
    d.SkipsIn staging (commands ++ rest) := by
  induction commands generalizing d with
  | nil => exact skips.elim
  | cons command later ih => exact ⟨skips.1, skips.2.imp_right ih⟩

/-- What is overlooked up to some point is overlooked in the whole course. -/
theorem Overlooks.mono {part : List Request} (overlooks : Overlooks d part) (upTo : UpTo part requests) :
    Overlooks d requests := by
  induction upTo generalizing d with
  | start => exact overlooks.elim
  | within staging commands rest later =>
    rcases overlooks with now | none
    · exact .inl (now.append rest)
    · exact none.elim
  | next request _ ih => exact overlooks.imp_right ih

/-- The images hold whole layers, and none has a side above a limit. -/
def WholeUpTo (limit : Nat) (d : Device) : Prop :=
  ∀ handle img, d.images.get? handle = some img → img.WellFormed ∧ img.side ≤ limit

variable {limit : Nat}

theorem WholeUpTo.modifyImage {handle : Nat} {f : DeviceImage → DeviceImage} (whole : d.WholeUpTo limit)
    (kept : ∀ img, img.WellFormed → (f img).WellFormed) (same : ∀ img, (f img).side = img.side) :
    (d.modifyImage handle f).WholeUpTo limit := by
  intro other img found
  rw [Device.modifyImage] at found
  by_cases here : other = handle
  · subst here
    rw [Table.get?_modify_self] at found
    obtain ⟨old, isOld, rfl⟩ := Option.map_eq_some_iff.mp found
    rw [same]
    exact ⟨kept old (whole _ old isOld).1, (whole _ old isOld).2⟩
  · rw [Table.get?_modify_of_ne _ _ here] at found
    exact whole other img found

theorem WholeUpTo.apply (whole : d.WholeUpTo limit) : (d.apply staging command).WholeUpTo limit := by
  cases command with
  | imageBarrier image old new layers =>
    exact whole.modifyImage (fun _ wellFormed => ⟨wellFormed.layers, wellFormed.sized⟩) fun _ => rfl
  | copyImage source target extent layers =>
    rw [Device.apply]
    split
    · exact whole
    · exact whole.modifyImage (fun _ => copyLayers_wellFormed) fun _ => copyLayers_side
  | copyToImage offset target layer x y width height =>
    exact whole.modifyImage (fun _ => writeRect_wellFormed) fun _ => rfl
  | copyToBuffer offset target count => exact whole
  | bufferBarrier buffer => exact whole

theorem WholeUpTo.submit (whole : d.WholeUpTo limit) : (d.submit staging commands).1.WholeUpTo limit := by
  induction commands generalizing d with
  | nil => exact whole
  | cons command rest ih =>
    rw [Device.submit]
    split
    · exact whole
    · exact ih whole.apply

theorem WholeUpTo.serve (whole : d.WholeUpTo limit)
    (small : ∀ side layers, request = .createImage side layers → side ≤ limit) :
    (d.serve createImage request).1.WholeUpTo limit := by
  cases request with
  | createImage side layers =>
    rw [Device.serve]
    split
    · rename_i handle after made
      obtain ⟨rfl, rfl⟩ := eq_of_createImage made
      intro other img found
      by_cases here : other = d.handles + 1
      · subst here
        rw [added, Table.get?_insert_self] at found
        cases found
        exact ⟨DeviceImage.wellFormed_create side layers, small side layers rfl⟩
      · rw [added, Table.get?_insert_of_ne _ _ here] at found
        exact whole other img found
    · exact whole
  | destroyImage handle =>
    rw [Device.serve, destroyImage]
    split
    · exact whole
    · intro other img found
      by_cases here : other = handle
      · subst here
        rw [Table.get?_erase_self] at found
        cases found
      · rw [Table.get?_erase_of_ne _ here] at found
        exact whole other img found
  | submit staging commands => exact whole.submit
  | createBuffer count => exact whole
  | destroyBuffer handle => exact whole
  | limitMemory limit => exact whole

theorem WholeUpTo.serveAll (whole : d.WholeUpTo limit)
    (small : ∀ side layers, .createImage side layers ∈ requests → side ≤ limit) :
    (d.serveAll createImage requests).1.WholeUpTo limit := by
  induction requests generalizing d with
  | nil => exact whole
  | cons request rest ih =>
    exact ih (whole.serve fun side layers isCreate => small side layers (isCreate ▸ List.mem_cons_self))
      fun side layers member => small side layers (List.mem_cons_of_mem _ member)

/-- The images hold whole layers, and texel offsets in them are no 32-bit words that wrap around. -/
def Sized (d : Device) : Prop := ∀ handle img, d.images.get? handle = some img → img.WellFormed ∧ img.side ≤ 0x8000

theorem Sized.apply (sized : d.Sized) : (d.apply staging command).Sized := WholeUpTo.apply sized

theorem Sized.serve (sized : d.Sized) (small : ∀ side layers, request = .createImage side layers → side ≤ 0x8000) :
    (d.serve createImage request).1.Sized := WholeUpTo.serve sized small

/-- What a copy in range finds. -/
theorem copy_inRange {source target extent layers : Nat} {img onto : DeviceImage}
    (allowed : d.violation? staging (.copyImage source target extent layers) = none)
    (isImg : d.images.get? source = some img) (isOnto : d.images.get? target = some onto) :
    extent ≤ min img.side onto.side ∧ layers ≤ min img.layers onto.layers := by
  have inRange := (Option.or_eq_none_iff.mp (Option.or_eq_none_iff.mp allowed).2).2
  simp only [copyViolation?, extent?, isImg, isOnto, Option.map_some] at inRange
  split at inRange
  · cases inRange
  · omega

/-- A copy that passes over a layer leaves a texel there that zeros at hand would have covered. -/
theorem texel?_apply_ne (sized : d.Sized) (allowed : d.violation? staging command = none) (skips : d.Skips command) :
    (d.blanked.apply staging command).texel? ≠ (d.apply staging command).texel? := by
  cases command with
  | copyImage source target extent layers =>
    obtain ⟨img, isImg, onto, isOnto, skips⟩ := skips
    rw [Option.mem_def] at isImg isOnto
    obtain ⟨small, few⟩ := copy_inRange allowed isImg isOnto
    simp only [DeviceImage.Carries, DeviceImage.BlankIn, Classical.not_forall] at skips
    obtain ⟨layer, copied, unwritten, row, inRows, k, inRow, marked⟩ := skips
    obtain ⟨whole, narrow⟩ := sized target onto isOnto
    have isAfter : (d.apply staging (.copyImage source target extent layers)).images.get? target =
        some (copyLayers img extent layers onto) := by
      simp only [apply, isImg]
      exact get?_modifyImage isOnto _
    have isBlankedAfter : (d.blanked.apply staging (.copyImage source target extent layers)).images.get? target =
        some (copyLayers img.blanked extent layers onto.blanked) := by
      simp only [apply, get?_blanked, isImg, Option.map_some]
      exact get?_modifyImage (by rw [get?_blanked, isOnto, Option.map_some]) _
    intro same
    have sameTexel := congrFun (congrFun (congrFun (congrFun same target) layer) (k / 4)) row
    rw [texel?_of_get? isAfter, texel?_of_get? isBlankedAfter] at sameTexel
    exact DeviceImage.texel?_copyLayers_ne (sized source img isImg).1 whole narrow small few copied unwritten inRows
      inRow marked sameTexel
  | imageBarrier image old new layers => exact skips.elim
  | copyToImage offset target layer x y width height => exact skips.elim
  | copyToBuffer offset target count => exact skips.elim
  | bufferBarrier buffer => exact skips.elim

/-- Commands that leave the same texels up to each of them pass over no layer. -/
theorem not_skipsIn (sized : d.Sized)
    (same : ∀ part, part <+: commands → (d.blanked.submit staging part).1.texel? = (d.submit staging part).1.texel?) :
    ¬d.SkipsIn staging commands := by
  induction commands generalizing d with
  | nil => exact id
  | cons command rest ih =>
    rintro ⟨allowed, skips⟩
    have run (device : Device) (part : List Command) (unopposed : device.violation? staging command = none) :
        device.submit staging (command :: part) = (device.apply staging command).submit staging part := by
      rw [submit, unopposed]
    have allowedBlanked := (d.violation?_blanked staging command).trans allowed
    have carries : ¬d.Skips command := by
      intro now
      have first := same [command] (List.prefix_append [command] rest)
      rw [run _ _ allowed, run _ _ allowedBlanked] at first
      exact texel?_apply_ne sized allowed now first
    refine skips.elim carries (ih sized.apply fun part isPart => ?_)
    have later := same (command :: part) (List.prefix_cons_inj command |>.mpr isPart)
    rw [run _ _ allowed, run _ _ allowedBlanked, ← apply_blanked carries] at later
    exact later

/-- A course of requests that looks the same up to each point passes over no layer. -/
theorem not_overlooks (sized : d.Sized) (small : ∀ side layers, .createImage side layers ∈ requests → side ≤ 0x8000)
    (same : ∀ part, UpTo part requests → d.blanked.sight createBlanked part = d.sight createImage part) :
    ¬Overlooks d requests := by
  induction requests generalizing d with
  | nil => exact id
  | cons request rest ih =>
    have carries : ¬d.OverlooksIn request := by
      cases request with
      | submit staging commands =>
        refine not_skipsIn sized fun part isPart => ?_
        obtain ⟨more, rfl⟩ := isPart
        exact congrArg Sight.texel? (same _ (.within staging part more rest))
      | createImage side layers => exact id
      | destroyImage handle => exact id
      | createBuffer count => exact id
      | destroyBuffer handle => exact id
      | limitMemory limit => exact id
    have servedSized : (d.serve createImage request).1.Sized :=
      sized.serve fun side layers isCreate => small side layers (isCreate ▸ List.mem_cons_self)
    have servedSmall : ∀ side layers, .createImage side layers ∈ rest → side ≤ 0x8000 :=
      fun side layers member => small side layers (List.mem_cons_of_mem _ member)
    rintro (now | later)
    · exact carries now
    · refine ih servedSized servedSmall (fun part upTo => ?_) later
      have whole := same (request :: part) (.next request upTo)
      simp only [sight, serveAll, serve_blanked carries, Sight.mk.injEq, List.cons.injEq, true_and] at whole
      simp only [sight, whole]

/-- Layers that are not at hand until they are written to cannot be told from zeros at hand, at any point of a course
of requests, unless a copy passes over one of them where its target is not blank; then they can. -/
theorem sight_createBlanked (alignment : Nat) (requests : List Request) :
    (¬Overlooks (create alignment) requests → ∀ part, UpTo part requests →
      (create alignment).sight createBlanked part = (create alignment).sight createImage part) ∧
    ((∀ side layers, .createImage side layers ∈ requests → side ≤ 0x8000) → Overlooks (create alignment) requests →
      ∃ part, UpTo part requests ∧
        (create alignment).sight createBlanked part ≠ (create alignment).sight createImage part) := by
  refine ⟨fun carries part upTo => sight_blanked fun overlooks => carries (overlooks.mono upTo), fun small overlooks => ?_⟩
  refine Classical.by_contradiction fun alike => ?_
  refine not_overlooks (fun _ _ found => ?_) small (fun part upTo => ?_) overlooks
  · cases found
  · exact of_not_not fun differs => alike ⟨part, upTo, differs⟩

/-- The first of three images is written to and copied onto the second. -/
def painting : List Request :=
  [.createImage 1 1, .createImage 1 1, .createImage 1 1, .submit ⟨⟨#[255, 255, 255, 255]⟩, 4⟩
    [.imageBarrier 1 .undefined .transferTarget 1, .copyToImage 0 1 0 0 0 1 1,
      .imageBarrier 1 .transferTarget .transferSource 1, .imageBarrier 2 .undefined .transferTarget 1,
      .copyImage 1 2 1 1]]

/-- The third image, which nothing was written to, is copied onto the second afterwards. -/
def covering : List Request :=
  painting ++ [.submit ⟨⟨#[255, 255, 255, 255]⟩, 4⟩ [.imageBarrier 3 .undefined .transferSource 1, .copyImage 3 2 1 1]]

theorem sight_createBlanked_painting :
    ¬Overlooks (create 4) painting ∧
    (create 4).sight createBlanked painting = (create 4).sight createImage painting ∧
    (∀ side layers, .createImage side layers ∈ covering → side ≤ 0x8000) ∧ Overlooks (create 4) covering ∧
    ∃ part, UpTo part covering ∧ (create 4).sight createBlanked part ≠ (create 4).sight createImage part := by
  have carries : ¬Overlooks (create 4) painting := by decide +kernel
  have overlooks : Overlooks (create 4) covering := by decide +kernel
  have small : ∀ side layers, .createImage side layers ∈ covering → side ≤ 0x8000 := by
    intro side layers member
    simp [covering, painting] at member
    omega
  have whole : UpTo painting painting := .next _ (.next _ (.next _ (.within _ _ [] [])))
  exact ⟨carries, (sight_createBlanked 4 painting).1 carries painting whole, small, overlooks,
    (sight_createBlanked 4 covering).2 small overlooks⟩

/-- The second image keeps its texel, where zeros at hand would have covered it. -/
theorem not_sight_createBlanked_covering :
    (create 4).sight createBlanked covering ≠ (create 4).sight createImage covering := by
  intro same
  have texel := congrFun (congrFun (congrFun (congrFun (congrArg Sight.texel? same) 2) 0) 0) 0
  revert texel
  decide +kernel

end TextureLoom.Atlas.Device
