import TextureLoom.Bake.Step

set_option autoImplicit false

namespace TextureLoom

open Bytecode (Block Operand Origin)

/-- A texture as it is handed to a bake: `pixels` may hold more than the size needs. -/
structure TextureView where
  width : Nat
  height : Nat
  pixels : Array Pixel
deriving DecidableEq, Repr

/-- The image that a view shows, if it has area and pixels enough. -/
def TextureView.image? (view : TextureView) : Option Image :=
  let count := view.width * view.height
  if count = 0 ∨ view.pixels.size < count then none
  else some ⟨view.width, view.height, view.pixels.extract 0 count⟩

/-- The textures by id. -/
abbrev Provider := Nat → Option TextureView

namespace Bake

/-- What one run has loaded, and the ids that it asked the provider for. -/
structure Memory where
  textures : List (Nat × Image) := []
  blocks : List ((Nat × Nat) × Image) := []
  asked : Array Nat := #[]

abbrev Machine := ExceptT BakeError (StateM Memory)

/-- A texture, asked of the provider the first time only. -/
def loadTexture (provider : Provider) (id : Nat) : Machine Image := do
  match (← get).textures.lookup id with
  | some img => pure img
  | none =>
    modify fun memory => { memory with asked := memory.asked.push id }
    match (provider id).bind TextureView.image? with
    | none => throw (.missingTexture id)
    | some img =>
      modify fun memory => { memory with textures := (id, img) :: memory.textures }
      pure img

/-- The image of a block from its instructions in order. -/
def runBlock (load : Operand → Machine Image) (seconds : Float) (block : Block) : Machine Image := do
  let current ← block.instrs.foldlM (fun current located => do
    pure (some (← step load seconds located.position located.instr current))) none
  match block.finish, current with
  | .error e, _ => throw (.undecodable e)
  | .ok _, some img => pure img
  | .ok position, none => throw (.missingBase "end" position)

/-- The image of the block in a range of the program, run by `run` the first time only. `active` holds the ranges
of the blocks under way. -/
def loadBlock (code : Array UInt8) (run : Machine Image) (active : List (Nat × Nat)) (range : Nat × Nat) :
    Machine Image := do
  match (← get).blocks.lookup range with
  | some img => pure img
  | none =>
    if range.2 = 0 ∨ code.size < range.1 + range.2 then throw (.blockOutOfRange range.1 range.2 code.size)
    else if active.contains range then throw (.recursiveBlock range.1 range.2)
    else
      let img ← run
      modify fun memory => { memory with blocks := (range, img) :: memory.blocks }
      pure img

/-- The image of an operand; `room` more blocks may be opened inside each other. -/
def load (code : Array UInt8) (provider : Provider) (seconds : Float) :
    Nat → List (Nat × Nat) → Operand → Machine Image
  | room, active, operand =>
    match operand.origin with
    | .texture id => loadTexture provider id
    | .block offset length =>
      let range := (offset, length)
      match room with
      | 0 => loadBlock code (throw .tooDeep) active range
      | room + 1 =>
        loadBlock code
          (runBlock (load code provider seconds room (range :: active)) seconds
            (Block.of code offset (offset + length)))
          active range

end Bake

/-- The image of a program at a time, with the texture ids that were asked for in order. -/
def bake (code : Array UInt8) (provider : Provider) (seconds : Float) : Except BakeError Image × List Nat :=
  let run := Bake.runBlock (Bake.load code provider seconds Bytecode.depthLimit []) seconds
    (Block.of code 0 code.size)
  let (result, memory) := run.run.run {}
  (result, memory.asked.toList)

end TextureLoom
