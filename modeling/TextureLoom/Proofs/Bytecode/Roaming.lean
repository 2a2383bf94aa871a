import TextureLoom.Bytecode.Reach

set_option autoImplicit false

namespace TextureLoom.Bytecode

/-- The texture id that an operand names, if it names one. -/
def Operand.ids (operand : Operand) : List Nat := (operand.texture?.map (·.2)).toList

theorem Operand.origin_of_texture? {operand : Operand} {id : Nat} (named : operand.texture?.map (·.2) = some id) :
    operand.origin = .texture id := by
  unfold texture? at named
  cases origin : operand.origin with
  | texture other =>
    rw [origin] at named
    exact congrArg Origin.texture (Option.some.inj named)
  | block offset length => simp [origin] at named

theorem Operand.ids_of_texture {operand : Operand} {id : Nat} (origin : operand.origin = .texture id) :
    operand.ids = [id] := by
  rw [ids, texture?, origin]
  rfl

theorem Operand.ids_of_block {operand : Operand} {offset length : Nat}
    (origin : operand.origin = .block offset length) : operand.ids = [] := by
  rw [ids, texture?, origin]
  rfl

/-- The texture ids that an instruction names. -/
def Instr.ids (i : Instr Operand) : List Nat := i.sources.flatMap Operand.ids

/-- The texture ids that the instructions met so far name. -/
def Trail.ids (trail : Trail) : List Nat := trail.met.toList.flatMap Instr.ids

theorem textureFields_map_snd (instrs : List (Instr Operand)) :
    (textureFields instrs).map (·.2) = instrs.flatMap Instr.ids := by
  have each : ∀ sources : List Operand,
      (sources.filterMap Operand.texture?).map (·.2) = sources.flatMap Operand.ids := by
    intro sources
    induction sources with
    | nil => rfl
    | cons operand rest ih =>
      rw [List.flatMap_cons, ← ih]
      cases shape : operand.texture? with
      | none => simp [shape, Operand.ids]
      | some field => simp [shape, Operand.ids]
  rw [textureFields, List.map_flatMap]
  exact congrArg (instrs.flatMap ·) (funext fun i => each i.sources)

theorem Trail.mem_ids {trail : Trail} {id : Nat} : id ∈ trail.ids ↔ ∃ i ∈ trail.met, id ∈ i.ids := by
  simp [Trail.ids, List.mem_flatMap]

/-- All that the first trail has met, the second has. -/
def Trail.Grows (first second : Trail) : Prop := ∀ i ∈ first.met, i ∈ second.met

namespace Trail.Grows

variable {first second third : Trail}

theorem refl (trail : Trail) : trail.Grows trail := fun _ member => member

theorem trans (former : first.Grows second) (latter : second.Grows third) : first.Grows third :=
  fun i member => latter i (former i member)

theorem ids (grows : first.Grows second) {id : Nat} (member : id ∈ first.ids) : id ∈ second.ids := by
  obtain ⟨i, met, named⟩ := Trail.mem_ids.mp member
  exact Trail.mem_ids.mpr ⟨i, grows i met, named⟩

/-- A walk in steps that each only add to the trail only adds to it. -/
theorem foldl {α : Type} {f : Trail → α → Trail} (each : ∀ (trail : Trail) a, trail.Grows (f trail a))
    (steps : List α) : ∀ trail : Trail, trail.Grows (steps.foldl f trail) := by
  induction steps with
  | nil => exact refl
  | cons a rest ih => exact fun trail => (each trail a).trans (ih _)

end Trail.Grows

/-- The trail once it has met one more instruction. -/
def Trail.record (trail : Trail) (i : Instr Operand) : Trail := { trail with met := trail.met.push i }

theorem Trail.mem_record (trail : Trail) (i : Instr Operand) : i ∈ (trail.record i).met := Array.mem_push_self

theorem Trail.grows_record (trail : Trail) (i : Instr Operand) : trail.Grows (trail.record i) :=
  fun _ member => Array.mem_push_of_mem _ member

namespace Reach

variable (code : Array UInt8) (descend : Nat × Nat → Trail → Trail)

/-- Follows the block that an operand names, if it is in the program and was not followed before. -/
def visit (trail : Trail) (operand : Operand) : Trail :=
  match operand.block? with
  | none => trail
  | some range =>
    if trail.entered.contains range then trail
    else if range.2 = 0 ∨ code.size < range.1 + range.2 then trail
    else descend range trail

/-- Meets an instruction and follows its operands. -/
def meet (trail : Trail) (i : Instr Operand) : Trail :=
  i.sources.foldl (visit code descend) (trail.record i)

/-- Meets the instructions of a block, as far as they can be decoded. -/
def roamBlock (block : Block) (trail : Trail) : Trail :=
  block.instrs.foldl (fun trail located => meet code descend trail located.instr) trail

/-- Enters a block and all that it reaches, and passes over what is nested too deep or cannot be decoded. -/
def roam : Nat → Nat × Nat → Trail → Trail
  | 0, _, trail => trail
  | room + 1, range, trail =>
    roamBlock code (roam room) (Block.of code range.1 (range.1 + range.2))
      { trail with entered := range :: trail.entered }

/-- The trail of a whole program. -/
def roamed : Trail := roamBlock code (roam code depthLimit) (Block.of code 0 code.size) {}

variable {code descend}

theorem grows_visit (deeper : ∀ range (trail : Trail), trail.Grows (descend range trail)) (trail : Trail)
    (operand : Operand) :
    trail.Grows (visit code descend trail operand) := by
  unfold visit
  split
  · exact .refl trail
  · split
    · exact .refl trail
    · split
      · exact .refl trail
      · exact deeper _ trail

theorem grows_meet (deeper : ∀ range (trail : Trail), trail.Grows (descend range trail)) (trail : Trail)
    (i : Instr Operand) :
    trail.Grows (meet code descend trail i) :=
  (trail.grows_record i).trans (Trail.Grows.foldl (grows_visit deeper) _ _)

theorem grows_roam (room : Nat) (range : Nat × Nat) (trail : Trail) : trail.Grows (roam code room range trail) := by
  induction room generalizing range trail with
  | zero => exact .refl trail
  | succ room ih =>
    have entered : trail.Grows { trail with entered := range :: trail.entered } := .refl trail
    exact entered.trans (Trail.Grows.foldl (fun trail (located : Located) => grows_meet ih trail located.instr) _ _)

theorem foldlM_ok {α β : Type} {f : β → α → Except Malformed β} {g : β → α → β} (each : ∀ b a, f b a = .ok (g b a))
    (l : List α) (b : β) : l.foldlM f b = .ok (l.foldl g b) := by
  have plain : f = fun b a => pure (g b a) := funext fun b => funext (each b)
  rw [plain]
  exact List.foldlM_pure

/-- A walk that passes over what it cannot decode never stops, and is the walk without failures. -/
theorem walkBlock_lenient {strictly : Nat × Nat → Trail → Except Malformed Trail}
    (deeper : ∀ range trail, strictly range trail = .ok (descend range trail)) (block : Block) (trail : Trail) :
    walkBlock false code strictly block trail = .ok (roamBlock code descend block trail) := by
  have meets : ∀ (trail : Trail) (located : Located),
      (located.instr.sources.filterMap Operand.block?).foldlM (follow false code strictly)
        { trail with met := trail.met.push located.instr } = .ok (meet code descend trail located.instr) := by
    intro trail located
    rw [List.foldlM_filterMap]
    refine foldlM_ok (fun trail operand => ?_) _ _
    unfold visit
    cases operand.block? with
    | none => rfl
    | some range => simp only [follow, deeper, Bool.false_eq_true, if_false, apply_ite Except.ok]
  rw [walkBlock, foldlM_ok meets]
  cases block.finish <;> rfl

theorem walk_lenient (room : Nat) (block : Block) (trail : Trail) :
    walk false code room block trail = .ok (roamBlock code (roam code room) block trail) := by
  induction room generalizing block trail with
  | zero => exact walkBlock_lenient (fun _ _ => rfl) block trail
  | succ room ih => exact walkBlock_lenient (fun _ _ => ih _ _) block trail

end Reach

variable {code : Array UInt8}

theorem reachable_eq : reachable code = (Reach.roamed code).met.toList := by
  rw [reachable, Reach.walkProgram, Reach.walk_lenient, Reach.roamed]

theorem dependencies_eq : dependencies code = (Reach.roamed code).ids.eraseDups := by
  rw [dependencies, textureFields_map_snd, reachable_eq, Trail.ids]

theorem mem_dependencies {id : Nat} : id ∈ dependencies code ↔ id ∈ (Reach.roamed code).ids := by
  rw [dependencies_eq, List.mem_eraseDups]

theorem mem_animations {spec : AnimSpec} :
    spec ∈ animations code ↔ ∃ i ∈ (Reach.roamed code).met, i.animSpec? = some spec := by
  simp [animations, reachable_eq]

end TextureLoom.Bytecode
