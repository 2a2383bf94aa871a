import TextureLoom.Compile.Draft
import TextureLoom.Bytecode.Encoding
import TextureLoom.Bytecode.Listing
import TextureLoom.Pipeline.Parser

set_option autoImplicit false

namespace TextureLoom.Compile

open Bytecode (Instr Origin)
open Bytecode.Listing (Patch)

/-- Bytes of a program and the names that its id fields stand for, in order of emission. -/
structure Compiled where
  code : Array UInt8
  patches : Array Patch

/-- Bytes of a block, its end included. -/
def blockLength (block : List (Instr Ref)) : Nat :=
  block.foldl (fun total i => total + i.length Ref.size) 1

/-- The offset and length of each block when they follow each other. -/
def ranges (blocks : Array (List (Instr Ref))) : Array (Nat × Nat) :=
  (blocks.foldl (fun (done, start) block =>
    let length := blockLength block
    (done.push (start, length), start + length)) (#[], 0)).1

/-- What an operand is written as: names as id zero. -/
def Ref.origin (table : Array (Nat × Nat)) : Ref → Origin
  | .name _ => .texture 0
  | .block index =>
    let range := table.getD index (0, 0)
    .block range.1 range.2

/-- The patch for an operand written at `start`. -/
def patch? : Nat × Ref → Option Patch
  | (start, .name text) => some ⟨start + 1, text⟩
  | (_, .block _) => none

namespace Compiled

def addInstr (table : Array (Nat × Nat)) (c : Compiled) (i : Instr Ref) : Compiled :=
  let placed := i.place Ref.size Prod.mk c.code.size
  { code := c.code ++ (i.map (Ref.origin table)).encode
    patches := c.patches ++ placed.sources.filterMap patch? }

def addBlock (table : Array (Nat × Nat)) (c : Compiled) (block : List (Instr Ref)) : Compiled :=
  let c := block.foldl (addInstr table) c
  { c with code := c.code.push Bytecode.finishCode }

/-- The blocks of a draft one behind the other. -/
def ofDraft (d : Draft) : Compiled :=
  d.blocks.foldl (addBlock (ranges d.blocks)) ⟨#[], #[]⟩

/-- The program of a pipeline. -/
def ofPipeline (p : Pipeline) : Except CompileError Compiled := do
  pure (ofDraft (← Draft.ofPipeline p))

/-- The program of a source text. -/
def ofText (text : String) : Except CompileError Compiled :=
  match Pipeline.parse? text with
  | .error e => .error (.malformed e)
  | .ok p => ofPipeline p

end Compiled

end TextureLoom.Compile
