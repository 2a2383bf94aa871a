import TextureLoom.Proofs.Bake.Dependence
import TextureLoom.Proofs.Image.Accessing

set_option autoImplicit false

namespace TextureLoom

open Bytecode (AnimParams Block Inset Instr Located Operand)

instance (img : Image) : Decidable img.WellFormed :=
  decidable_of_iff (0 < img.width ∧ 0 < img.height ∧ img.pixels.size = img.width * img.height)
    ⟨fun ⟨columns, rows, size⟩ => ⟨columns, rows, size⟩, fun ⟨columns, rows, size⟩ => ⟨columns, rows, size⟩⟩

namespace Bake

/-! A bake again, with checks: it ends with `fault` when an operation comes to a pixel that is not there, when an image
that it holds is not well formed, and when an instruction makes an image over the limit. -/

section

variable (fault : BakeError)

/-- The image made, if all pixels for it were there, to be held from now on. -/
def hold (made : Option Image) : Machine Image :=
  match made with
  | none => throw fault
  | some img => if img.WellFormed then pure img else throw fault

/-- As `hold`, for an instruction that decides how large its image is. -/
def holdSmall (made : Option Image) : Machine Image := do
  let img ← hold fault made
  if pixelLimit < img.width * img.height then throw fault else pure img

def guardedPlaceInsets (load : Operand → Machine Image) (canvas : Image) (insets : List (Inset Operand)) :
    Machine Image :=
  insets.foldlM (fun canvas inset => do
    let img ← load inset.source
    hold fault (canvas.overlayAt? img inset.x.toNat inset.y.toNat)) canvas

def guardedStep (load : Operand → Machine Image) (seconds : Float) (position : Nat) (i : Instr Operand)
    (current : Option Image) : Machine Image :=
  match i with
  | .fill w h color => do
    checkNonempty "fill" w.toNat h.toNat position
    checkSize w.toNat h.toNat
    holdSmall fault (some (.solid w.toNat h.toNat color))
  | .sheet source params => do
    let sheet ← load source
    checkFrames params sheet
    holdSmall fault (sheet.animate? params seconds)
  | .resize w h => do
    let img ← needBase i position current
    checkNonempty "resize" w.toNat h.toNat position
    checkSize w.toNat h.toNat
    holdSmall fault (img.resize? w.toNat h.toNat)
  | .transform mode => do hold fault ((← needBase i position current).orient? mode.toNat)
  | .animate params => do
    let sheet ← needBase i position current
    checkFrames params sheet
    holdSmall fault (sheet.animate? params seconds)
  | .overlay source => do
    let top ← load source
    match current with
    | none => hold fault (some top)
    | some img => hold fault do img.overlay? (← top.fit? img.width img.height)
  | .mask source => do
    let img ← needBase i position current
    let mask ← load source
    hold fault do img.applyMask? (← mask.fit? img.width img.height)
  | .lowPart percent source => do
    let img ← needBase i position current
    let top ← load source
    hold fault do img.lowPart? (← top.fit? img.width img.height) percent.toNat
  | .combine w h insets => do
    checkNonempty "combine canvas" w.toNat h.toNat position
    checkSize w.toNat h.toNat
    holdSmall fault (some (← guardedPlaceInsets fault load (.solid w.toNat h.toNat 0) insets))
  -- The others change each pixel by itself.
  | i => do hold fault (some (← step load seconds position i current))

def guardedRunBlock (load : Operand → Machine Image) (seconds : Float) (block : Block) : Machine Image := do
  let current ← block.instrs.foldlM (fun current located => do
    pure (some (← guardedStep fault load seconds located.position located.instr current))) none
  match block.finish, current with
  | .error e, _ => throw (.undecodable e)
  | .ok _, some img => pure img
  | .ok position, none => throw (.missingBase "end" position)

def guardedLoad (code : Array UInt8) (provider : Provider) (seconds : Float) :
    Nat → List (Nat × Nat) → Operand → Machine Image
  | 0, active, operand => do hold fault (some (← loadWith code provider (fun _ => throw .tooDeep) active operand))
  | room + 1, active, operand => do
    let run := fun range : Nat × Nat =>
      guardedRunBlock fault (guardedLoad code provider seconds room (range :: active)) seconds
        (Block.of code range.1 (range.1 + range.2))
    hold fault (some (← loadWith code provider run active operand))

/-- As `bake`, with the checks. -/
def guardedBake (code : Array UInt8) (provider : Provider) (seconds : Float) : Except BakeError Image × List Nat :=
  let run := guardedRunBlock fault (guardedLoad fault code provider seconds Bytecode.depthLimit []) seconds
    (Block.of code 0 code.size)
  let (result, memory) := run.run.run {}
  (result, memory.asked.toList)

end

/-- All images that a run remembers are well formed. -/
structure Memory.WellFormed (memory : Memory) : Prop where
  textures : ∀ entry ∈ memory.textures, entry.2.WellFormed
  blocks : ∀ entry ∈ memory.blocks, entry.2.WellFormed

/-- From every memory of well-formed images, the run with checks does what the run without them does, which leaves such
a memory, and what it gives satisfies `post`. -/
def Guards {α : Type} (run guarded : Machine α) (post : α → Prop) : Prop :=
  ∀ memory : Memory, memory.WellFormed → guarded.run.run memory = run.run.run memory ∧
    (run.run.run memory).2.WellFormed ∧ ∀ a, (run.run.run memory).1 = .ok a → post a

section

variable {α β : Type} {fault : BakeError} {post : α → Prop}

theorem guards_pure {a : α} (holds : post a) : Guards (pure a) (pure a) post := by
  refine fun memory wellFormed => ⟨rfl, wellFormed, ?_⟩
  rintro _ ⟨⟩
  exact holds

theorem guards_throw (e : BakeError) : Guards (throw e : Machine α) (throw e) post :=
  fun _ wellFormed => ⟨rfl, wellFormed, nofun⟩

theorem Guards.bind {run guarded : Machine α} {next guardedNext : α → Machine β} {after : β → Prop}
    (first : Guards run guarded post) (second : ∀ a, post a → Guards (next a) (guardedNext a) after) :
    Guards (run >>= next) (guarded >>= guardedNext) after := by
  intro memory wellFormed
  obtain ⟨same, left, holds⟩ := first memory wellFormed
  rw [run_bind, run_bind, same]
  generalize run.run.run memory = whole at left holds
  rcases whole with ⟨e | a, later⟩
  · exact ⟨rfl, left, nofun⟩
  · exact second a (holds a rfl) later left

theorem Guards.weaken {run guarded : Machine α} {weaker : α → Prop} (guards : Guards run guarded post)
    (implies : ∀ a, post a → weaker a) : Guards run guarded weaker := by
  intro memory wellFormed
  obtain ⟨same, left, holds⟩ := guards memory wellFormed
  exact ⟨same, left, fun a given => implies a (holds a given)⟩

/-- A check behind a run that never finds anything. -/
theorem Guards.check {run guarded : Machine α} {check : α → Machine α} (guards : Guards run guarded post)
    (passes : ∀ a, post a → check a = pure a) : Guards run (guarded >>= check) post := by
  have checked : Guards (run >>= pure) (guarded >>= check) post := guards.bind fun a holds => by
    rw [passes a holds]
    exact guards_pure holds
  rwa [bind_pure] at checked

theorem hold_eq {img : Image} (wellFormed : img.WellFormed) : hold fault (some img) = pure img := if_pos wellFormed

theorem holdSmall_eq {img : Image} (wellFormed : img.WellFormed) (small : img.width * img.height ≤ pixelLimit) :
    holdSmall fault (some img) = pure img := by
  rw [holdSmall, hold_eq wellFormed, pure_bind, if_neg (Nat.not_lt.mpr small)]

theorem guards_hold {made : Option Image} {img : Image} {post : Image → Prop} (all : made = some img)
    (wellFormed : img.WellFormed) (holds : post img) : Guards (pure img) (hold fault made) post := by
  rw [all, hold_eq wellFormed]
  exact guards_pure holds

theorem guards_holdSmall {made : Option Image} {img : Image} (all : made = some img) (wellFormed : img.WellFormed)
    (small : img.width * img.height ≤ pixelLimit) : Guards (pure img) (holdSmall fault made) Image.WellFormed := by
  rw [all, holdSmall_eq wellFormed small]
  exact guards_pure wellFormed

theorem guards_checkSize (width height : Nat) :
    Guards (checkSize width height) (checkSize width height) fun _ => width * height ≤ pixelLimit := by
  unfold checkSize
  split
  · exact guards_throw _
  · next small => exact guards_pure (Nat.not_lt.mp small)

theorem guards_checkNonempty (what : String) (width height position : Nat) :
    Guards (checkNonempty what width height position) (checkNonempty what width height position)
      fun _ => 0 < width ∧ 0 < height := by
  unfold checkNonempty
  split
  · exact guards_throw _
  · next area => exact guards_pure (by omega)

theorem guards_needBase (i : Instr Operand) (position : Nat) {current : Option Image}
    (wellFormed : ∀ img ∈ current, img.WellFormed) :
    Guards (needBase i position current) (needBase i position current) Image.WellFormed := by
  cases current with
  | none => exact guards_throw _
  | some img => exact guards_pure (wellFormed img rfl)

end

section

variable {fault : BakeError} {load guarded : Operand → Machine Image}

theorem guards_placeInsets (loads : ∀ operand, Guards (load operand) (guarded operand) Image.WellFormed)
    (insets : List (Inset Operand)) : ∀ canvas : Image, canvas.WellFormed →
      Guards (placeInsets load canvas insets) (guardedPlaceInsets fault guarded canvas insets) fun img =>
        img.WellFormed ∧ img.width = canvas.width ∧ img.height = canvas.height := by
  induction insets with
  | nil => exact fun canvas wellFormed => guards_pure ⟨wellFormed, rfl, rfl⟩
  | cons inset rest ih =>
    intro canvas wellFormed
    rw [placeInsets, guardedPlaceInsets, List.foldlM_cons, List.foldlM_cons]
    have laid (top : Image) (topToo : top.WellFormed) :
        Guards (pure (canvas.overlayAt top inset.x.toNat inset.y.toNat))
          (hold fault (canvas.overlayAt? top inset.x.toNat inset.y.toNat))
          fun img => img.WellFormed ∧ img.width = canvas.width ∧ img.height = canvas.height := by
      obtain ⟨placed, laid⟩ := wellFormed.overlayAt?_eq topToo inset.x.toNat inset.y.toNat
      exact guards_hold placed laid ⟨laid, rfl, rfl⟩
    refine ((loads inset.source).bind laid).bind fun img holds => ?_
    obtain ⟨wellFormedToo, width, height⟩ := holds
    rw [← width, ← height]
    exact ih img wellFormedToo

/-- An animation, whose frame has been found to be within the limit. -/
theorem guards_animate {sheet : Image} (wellFormed : sheet.WellFormed) (params : AnimParams) (seconds : Float) :
    Guards (do checkFrames params sheet; pure (sheet.animate params seconds))
      (do checkFrames params sheet; holdSmall fault (sheet.animate? params seconds)) Image.WellFormed := by
  obtain ⟨all, shown, width, height⟩ := wellFormed.animate?_eq params seconds
  refine Guards.bind (guards_checkSize _ _) fun _ small => guards_holdSmall all shown ?_
  rw [width, height]
  exact small

/-- An operation of an image with an operand that is brought to its size. -/
theorem guards_fit (op : Image → Image) (op? : Image → Option Image) {img top : Image} (wellFormed : img.WellFormed)
    (topToo : top.WellFormed) (all : ∀ {top}, img.Fits top → op? top = some (op top))
    (made : ∀ top, (op top).WellFormed) : Guards (pure (op (top.fit img.width img.height)))
      (hold fault do op? (← top.fit? img.width img.height)) Image.WellFormed := by
  have fitted : (do op? (← top.fit? img.width img.height)) = some (op (top.fit img.width img.height)) := by
    rw [topToo.fit?_eq]
    exact all (wellFormed.fits topToo)
  exact guards_hold fitted (made _) (made _)

/-- An instruction on a well-formed image makes a well-formed one, and comes to no pixel that is not there. -/
theorem guards_step (loads : ∀ operand, Guards (load operand) (guarded operand) Image.WellFormed) (seconds : Float)
    (position : Nat) (i : Instr Operand) {current : Option Image} (wellFormed : ∀ img ∈ current, img.WellFormed) :
    Guards (step load seconds position i current) (guardedStep fault guarded seconds position i current)
      Image.WellFormed := by
  have base := guards_needBase i position wellFormed
  cases i with
  | texture s => exact (loads s).check fun img => hold_eq
  | fill w h c =>
    refine (guards_checkNonempty _ _ _ _).bind fun _ area => (guards_checkSize _ _).bind fun _ small => ?_
    exact guards_holdSmall rfl (Image.wellFormed_solid area.1 area.2 c) small
  | sheet s p => exact (loads s).bind fun sheet sheetToo => guards_animate sheetToo p seconds
  | resize w h =>
    refine base.bind fun img baseToo => (guards_checkNonempty _ _ _ _).bind fun _ area =>
      (guards_checkSize _ _).bind fun _ small => ?_
    refine guards_holdSmall (baseToo.resize?_eq _ _) (baseToo.resize area.1 area.2) ?_
    rw [(baseToo.size_resize _ _).1, (baseToo.size_resize _ _).2]
    exact small
  | transform mode =>
    exact base.bind fun img baseToo => guards_hold (baseToo.orient?_eq _) (baseToo.orient _) (baseToo.orient _)
  | animate p => exact base.bind fun sheet sheetToo => guards_animate sheetToo p seconds
  | overlay s =>
    refine (loads s).bind fun top topToo => ?_
    cases current with
    | none => exact guards_hold rfl topToo topToo
    | some img =>
      have baseToo := wellFormed img rfl
      exact guards_fit img.overlay img.overlay? baseToo topToo Image.Fits.overlay?_eq (baseToo.zip _)
  | mask s =>
    exact base.bind fun img baseToo => (loads s).bind fun mask maskToo =>
      guards_fit img.applyMask img.applyMask? baseToo maskToo Image.Fits.applyMask?_eq (baseToo.zip _)
  | lowPart percent s =>
    exact base.bind fun img baseToo => (loads s).bind fun top topToo =>
      guards_fit (img.lowPart · percent.toNat) (img.lowPart? · percent.toNat) baseToo topToo
        (fun fits => fits.lowPart?_eq _) fun top => baseToo.lowPart top _
  | combine w h insets =>
    refine (guards_checkNonempty _ _ _ _).bind fun _ area => (guards_checkSize _ _).bind fun _ small => ?_
    have canvas := Image.wellFormed_solid area.1 area.2 0
    have placed : Guards _ (guardedPlaceInsets fault guarded _ insets) _ := guards_placeInsets loads insets _ canvas
    refine (placed.check fun img holds => ?_).weaken fun _ => And.left
    obtain ⟨laid, width, height⟩ := holds
    have within : img.width * img.height ≤ pixelLimit := by
      rw [width, height]
      exact small
    exact holdSmall_eq laid within
  | _ =>
    exact (base.bind fun img baseToo => guards_pure (baseToo.map _)).check fun img => hold_eq

/-- The image so far is well formed all the way. -/
theorem guards_instrs (loads : ∀ operand, Guards (load operand) (guarded operand) Image.WellFormed) (seconds : Float)
    (instrs : List Located) : ∀ current : Option Image, (∀ img ∈ current, img.WellFormed) →
      Guards
        (instrs.foldlM (fun current located => do
          pure (some (← step load seconds located.position located.instr current))) current)
        (instrs.foldlM (fun current located => do
          pure (some (← guardedStep fault guarded seconds located.position located.instr current))) current)
        fun later => ∀ img ∈ later, img.WellFormed := by
  induction instrs with
  | nil => exact fun current wellFormed => guards_pure wellFormed
  | cons located rest ih =>
    intro current wellFormed
    rw [List.foldlM_cons, List.foldlM_cons]
    have stepped : Guards (step load seconds located.position located.instr current)
        (guardedStep fault guarded seconds located.position located.instr current) Image.WellFormed :=
      guards_step loads seconds located.position located.instr wellFormed
    refine (stepped.bind fun img made => guards_pure ?_).bind ih
    rintro _ ⟨⟩
    exact made

theorem guards_runBlock (loads : ∀ operand, Guards (load operand) (guarded operand) Image.WellFormed) (seconds : Float)
    (block : Block) :
    Guards (runBlock load seconds block) (guardedRunBlock fault guarded seconds block) Image.WellFormed := by
  refine (guards_instrs loads seconds block.instrs none nofun).bind fun current wellFormed => ?_
  cases block.finish with
  | error e => exact guards_throw _
  | ok position =>
    cases current with
    | none => exact guards_throw _
    | some img => exact guards_pure (wellFormed img rfl)

end

section

variable {fault : BakeError} {code : Array UInt8} {provider : Provider} {seconds : Float}

theorem wellFormed_of_lookup {κ : Type} [BEq κ] [LawfulBEq κ] {entries : List (κ × Image)} {key : κ} {img : Image}
    (wellFormed : ∀ entry ∈ entries, entry.2.WellFormed) (known : entries.lookup key = some img) : img.WellFormed := by
  obtain ⟨first, last, rfl, -⟩ := List.lookup_eq_some_iff.mp known
  exact wellFormed _ (List.mem_append_right _ List.mem_cons_self)

theorem guards_loadTexture (provider : Provider) (id : Nat) :
    Guards (loadTexture provider id) (loadTexture provider id) Image.WellFormed := by
  refine fun memory wellFormed => ⟨rfl, ?_⟩
  rw [run_loadTexture]
  cases known : memory.textures.lookup id with
  | some img =>
    refine ⟨wellFormed, ?_⟩
    rintro _ ⟨⟩
    exact wellFormed_of_lookup wellFormed.textures known
  | none =>
    cases shown : provider.image? id with
    | none => exact ⟨⟨wellFormed.textures, wellFormed.blocks⟩, nofun⟩
    | some img =>
      obtain ⟨view, _, shows⟩ := Option.bind_eq_some_iff.mp shown
      have loaded := TextureView.wellFormed_image? shows
      refine ⟨⟨List.forall_mem_cons.mpr ⟨loaded, wellFormed.textures⟩, wellFormed.blocks⟩, ?_⟩
      rintro _ ⟨⟩
      exact loaded

theorem guards_loadBlock {run guarded : Machine Image} (runs : Guards run guarded Image.WellFormed)
    (active : List (Nat × Nat)) (range : Nat × Nat) :
    Guards (loadBlock code run active range) (loadBlock code guarded active range) Image.WellFormed := by
  intro memory wellFormed
  obtain ⟨same, left, holds⟩ := runs memory wellFormed
  rw [run_loadBlock, run_loadBlock, same]
  refine ⟨rfl, ?_⟩
  cases known : memory.blocks.lookup range with
  | some img =>
    refine ⟨wellFormed, ?_⟩
    rintro _ ⟨⟩
    exact wellFormed_of_lookup wellFormed.blocks known
  | none =>
    dsimp only
    split
    · exact ⟨wellFormed, nofun⟩
    · split
      · exact ⟨wellFormed, nofun⟩
      · generalize run.run.run memory = whole at left holds
        rcases whole with ⟨e | img, after⟩
        · exact ⟨left, nofun⟩
        · have made := holds img rfl
          refine ⟨⟨left.textures, List.forall_mem_cons.mpr ⟨made, left.blocks⟩⟩, ?_⟩
          rintro _ ⟨⟩
          exact made

theorem guards_loadWith {run guarded : Nat × Nat → Machine Image}
    (runs : ∀ range, Guards (run range) (guarded range) Image.WellFormed) (active : List (Nat × Nat))
    (operand : Operand) : Guards (loadWith code provider run active operand)
      (do hold fault (some (← loadWith code provider guarded active operand))) Image.WellFormed := by
  have loads : Guards (loadWith code provider run active operand) (loadWith code provider guarded active operand)
      Image.WellFormed := by
    unfold loadWith
    cases operand.origin with
    | texture id => exact guards_loadTexture provider id
    | block offset length => exact guards_loadBlock (runs _) active _
  exact loads.check fun img => hold_eq

theorem guards_load (room : Nat) (active : List (Nat × Nat)) (operand : Operand) :
    Guards (load code provider seconds room active operand)
      (guardedLoad fault code provider seconds room active operand) Image.WellFormed := by
  -- On the levels left.
  induction room generalizing active operand with
  | zero =>
    rw [load_zero, guardedLoad]
    exact guards_loadWith (fun _ => guards_throw _) active operand
  | succ room ih =>
    rw [load_succ, guardedLoad]
    exact guards_loadWith (fun range => guards_runBlock (ih (range :: active)) seconds _) active operand

end

/-- What a bake remembers at its end. -/
def remembered (code : Array UInt8) (provider : Provider) (seconds : Float) : Memory :=
  let run := runBlock (load code provider seconds Bytecode.depthLimit []) seconds (Block.of code 0 code.size)
  (run.run.run {}).2

end Bake

open Bake

/-- No bake, of whatever bytes, comes to a pixel that is not there, holds an image that is not well formed, or makes one
over the limit: checks of all that never find anything. What it gives and what it remembers is well formed. -/
theorem guardedBake_eq (code : Array UInt8) (provider : Provider) (seconds : Float) :
    (∀ fault, guardedBake fault code provider seconds = bake code provider seconds) ∧
      (∀ img, (bake code provider seconds).1 = .ok img → img.WellFormed) ∧
      (remembered code provider seconds).WellFormed := by
  have guards (fault : BakeError) :
      Guards (runBlock (load code provider seconds Bytecode.depthLimit []) seconds (Block.of code 0 code.size))
        (guardedRunBlock fault (guardedLoad fault code provider seconds Bytecode.depthLimit []) seconds
          (Block.of code 0 code.size)) Image.WellFormed := guards_runBlock (guards_load _ []) seconds _
  have empty : ({} : Memory).WellFormed := ⟨nofun, nofun⟩
  refine ⟨fun fault => ?_, ?_, ?_⟩
  · exact congrArg (fun whole => (whole.1, whole.2.asked.toList)) (guards fault {} empty).1
  · exact (guards .tooDeep {} empty).2.2
  · exact (guards .tooDeep {} empty).2.1

/-- Two columns and three rows, turned, with texture 7 laid over them. -/
def turnedDots : Array UInt8 := #[2, 2, 0, 3, 0, 0, 0, 0, 0, 11, 1, 30, 0, 7, 0, 0, 0]

theorem guardedBake_turnedDots : ∃ img, (bake turnedDots oneDot 0).1 = .ok img ∧ (img.width, img.height) = (3, 2) ∧
    img.WellFormed ∧ (guardedBake .tooDeep turnedDots oneDot 0).1 = .ok img := by
  obtain ⟨guarded, made, -⟩ := guardedBake_eq turnedDots oneDot 0
  have baked : (bake turnedDots oneDot 0).1 = .ok (.solid 3 2 0xff0000ff) := by rfl
  exact ⟨_, baked, rfl, made _ baked, (guarded .tooDeep) ▸ baked⟩

end TextureLoom
