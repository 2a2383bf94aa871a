import TextureLoom.Compile.Stage

set_option autoImplicit false

namespace TextureLoom.Compile

open Source (SyntaxError)
open Bytecode (Instr)

/-- Why a source text has no program. -/
inductive CompileError where
  | malformed (e : SyntaxError)
  | tooLong (size : Nat)
deriving DecidableEq, Repr

def CompileError.message : CompileError → String
  | .malformed e => e.message
  | .tooLong size => s!"program is {size} bytes, limit is {Bytecode.sizeLimit}"

/-- An image operand of a draft: a texture name or the number of a block. -/
inductive Ref where
  | name (text : String)
  | block (index : Nat)
deriving DecidableEq, Repr

/-- Bytes of an operand: a kind byte, then an id or a range. -/
def Ref.size : Ref → Nat
  | .name _ => 4
  | .block _ => 7

/-- The blocks of a program in order, each without its end. -/
structure Draft where
  blocks : Array (List (Instr Ref)) := #[]
  /-- Bytes of the finished instructions and ends. -/
  size : Nat := 0
  /-- Blocks that have a number. -/
  numbered : Nat := 1
  /-- Numbered pipelines without a block yet, in order. -/
  waiting : Array Pipeline := #[]

namespace Draft

/-- The operand for a piece: a nested pipeline takes the next block number. -/
def number (piece : Piece) (d : Draft) : Ref × Draft :=
  match piece with
  | .name text => (.name text, d)
  | .nested p => (.block d.numbered, { d with numbered := d.numbered + 1, waiting := d.waiting.push p })

/-- The draft with one more instruction at the end of the block under way. -/
def add (i : Instr Piece) (block : Array (Instr Ref)) (d : Draft) : Array (Instr Ref) × Draft :=
  let (i, d) := i.thread number d
  (block.push i, { d with size := d.size + i.length Ref.size })

/-- Refuses a draft that has grown over the limit. -/
def checked (d : Draft) : Except CompileError Draft :=
  if Bytecode.sizeLimit < d.size then .error (.tooLong d.size) else .ok d

def stages (room : Nat) : List Call → Array (Instr Ref) → Draft → Except CompileError (Array (Instr Ref) × Draft)
  | [], block, d => .ok (block, d)
  | call :: rest, block, d =>
    match stageInstr room call with
    | .error e => .error (.malformed e)
    | .ok i =>
      let (block, d) := d.add i block
      match d.checked with
      | .error e => .error e
      | .ok d => stages room rest block d

/-- The draft with the block of one more pipeline. -/
def block (room : Nat) (p : Pipeline) (d : Draft) : Except CompileError Draft :=
  match baseInstr room p.base with
  | .error e => .error (.malformed e)
  | .ok i => do
    let (first, d) := d.add i #[]
    let (block, d) ← stages room p.stages first d
    pure { d with blocks := d.blocks.push block.toList, size := d.size + 1 }

/-- The blocks of all waiting pipelines, level by level; `room` levels may follow the first. -/
def levels : Nat → Draft → Except CompileError Draft
  | 0, d => level 0 d
  | room + 1, d => do
    let d ← level (room + 1) d
    levels room d
where
  level (room : Nat) (d : Draft) : Except CompileError Draft :=
    d.waiting.foldlM (fun d p => do (← d.block room p).checked) { d with waiting := #[] }

/-- The draft of a pipeline: its own block, then those of its nested pipelines breadth first. -/
def ofPipeline (p : Pipeline) : Except CompileError Draft := do
  let d ← ({} : Draft).block Source.nestingLimit p
  let d ← d.levels (Source.nestingLimit - 1)
  d.checked

end Draft

end TextureLoom.Compile
