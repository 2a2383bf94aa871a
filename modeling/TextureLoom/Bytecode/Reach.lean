import TextureLoom.Bytecode.Block

set_option autoImplicit false

namespace TextureLoom.Bytecode

/-- Blocks open inside each other, the program itself apart, at most. -/
def depthLimit : Nat := 64

/-- Why not every reachable block of a program can be decoded. -/
inductive Malformed where
  | undecodable (e : DecodeError)
  | blockOutOfRange (offset length : Nat)
  | tooDeep
deriving DecidableEq, Repr

def Malformed.message : Malformed → String
  | .undecodable e => e.message
  | .blockOutOfRange offset length => s!"sub-program {offset}+{length} is out of range"
  | .tooDeep => s!"sub-programs nested deeper than {depthLimit} levels"

/-- The blocks entered so far and the instructions met, in order. -/
structure Trail where
  entered : List (Nat × Nat) := []
  met : Array (Instr Operand) := #[]

namespace Reach

/-- Follows the operand with this range unless it was followed before. A range outside the program is an error when
`strict` and passed over otherwise. -/
def follow (strict : Bool) (code : Array UInt8) (descend : Nat × Nat → Trail → Except Malformed Trail)
    (trail : Trail) (range : Nat × Nat) : Except Malformed Trail :=
  if trail.entered.contains range then .ok trail
  else if range.2 = 0 ∨ code.size < range.1 + range.2 then
    if strict then .error (.blockOutOfRange range.1 range.2) else .ok trail
  else descend range trail

/-- Meets the instructions of a block in order, following the operands of each before the next. -/
def walkBlock (strict : Bool) (code : Array UInt8) (descend : Nat × Nat → Trail → Except Malformed Trail)
    (block : Block) (trail : Trail) : Except Malformed Trail := do
  let trail ← block.instrs.foldlM (fun trail located =>
    (located.instr.sources.filterMap Operand.block?).foldlM (follow strict code descend)
      { trail with met := trail.met.push located.instr }) trail
  match block.finish with
  | .ok _ => .ok trail
  | .error e => if strict then .error (.undecodable e) else .ok trail

/-- Walks a block and all that it reaches; `room` more blocks may be opened inside each other. -/
def walk (strict : Bool) (code : Array UInt8) : Nat → Block → Trail → Except Malformed Trail
  | 0 => walkBlock strict code fun _ trail => if strict then .error .tooDeep else .ok trail
  | room + 1 => walkBlock strict code fun range trail =>
      walk strict code room (Block.of code range.1 (range.1 + range.2))
        { trail with entered := range :: trail.entered }

def walkProgram (strict : Bool) (code : Array UInt8) : Except Malformed Trail :=
  walk strict code depthLimit (Block.of code 0 code.size) {}

end Reach

/-- The instructions that a program reaches, in the order of a walk that passes over what it cannot decode. -/
def reachable (code : Array UInt8) : List (Instr Operand) :=
  match Reach.walkProgram false code with
  | .ok trail => trail.met.toList
  | .error _ => []

/-- The texture operands of some instructions: where each id is written, and the id. -/
def textureFields (instrs : List (Instr Operand)) : List (Nat × Nat) :=
  instrs.flatMap fun i => i.sources.filterMap Operand.texture?

/-- The texture ids that a program reads, each once, in the order of the walk. -/
def dependencies (code : Array UInt8) : List Nat :=
  ((textureFields (reachable code)).map (·.2)).eraseDups

/-- An animation in a program, and the texture whose frames it shows when that is known without running it. -/
structure AnimSpec where
  texture : Option Nat
  params : AnimParams
deriving DecidableEq, Repr

/-- The animation of an instruction. -/
def Instr.animSpec? : Instr Operand → Option AnimSpec
  | .sheet source params => some ⟨source.texture?.map (·.2), params⟩
  | .animate params => some ⟨none, params⟩
  | _ => none

/-- The animations that a program reaches. -/
def animations (code : Array UInt8) : List AnimSpec := (reachable code).filterMap Instr.animSpec?

/-- The offsets of all texture ids that a program reaches, ascending, if all it reaches can be decoded. -/
def textureSites (code : Array UInt8) : Except Malformed (List Nat) := do
  let trail ← Reach.walkProgram true code
  pure (((textureFields trail.met.toList).map (·.1)).mergeSort).eraseReps

end TextureLoom.Bytecode
