import TextureLoom.Compile.Layout
import TextureLoom.Bake.Machine

set_option autoImplicit false

namespace TextureLoom

open Bytecode.Listing (Patch)

/-- Why bytes are not accepted as a program, or its ids not renamed. -/
inductive CodeError where
  | empty
  | tooLong (size : Nat)
  | malformed (e : Bytecode.Malformed)
  | idOutsideTable (id field entries : Nat)
  | renamedIdTooLarge (id : Nat)
  | idTooLarge (id : Nat)
deriving DecidableEq, Repr

def CodeError.message : CodeError → String
  | .empty => "bytecode is empty"
  | .tooLong size => s!"bytecode is {size} bytes, limit is {Bytecode.sizeLimit}"
  | .malformed e => s!"malformed bytecode: {e.message}"
  | .idOutsideTable id field entries =>
    s!"texture id {id} at byte {field} is outside the remap table ({entries} entries)"
  | .renamedIdTooLarge id => s!"remapped texture id {id} does not fit in 24 bits"
  | .idTooLarge id => s!"texture id {id} does not fit in 24 bits"

/-- Why the texture names of a program have no ids. -/
inductive LinkError where
  | idTooLarge (name : String) (id : Nat)
  | unresolved (name : String)
  | unlinked (names : List String)
deriving DecidableEq, Repr

def LinkError.message : LinkError → String
  | .idTooLarge name id => s!"texture '{name}' resolved to id {id}, which does not fit in 24 bits"
  | .unresolved name => s!"unresolved texture name '{name}'"
  | .unlinked names => "program has unresolved texture names: " ++ ", ".intercalate names

/-- A compiled pipeline. Its patches stay when its names are resolved, so it can be linked again. -/
structure Program where
  code : Array UInt8
  patches : List Patch
  linked : Bool
deriving DecidableEq

namespace Program

/-- The program of a source text, linked when it names no texture. -/
def compile (text : String) : Except Compile.CompileError Program := do
  let compiled ← Compile.Compiled.ofText text
  pure ⟨compiled.code, compiled.patches.toList, compiled.patches.isEmpty⟩

/-- Bytes as a program without names, if all that they reach can be decoded. -/
def ofBytes (code : Array UInt8) : Except CodeError Program :=
  if code.isEmpty then .error .empty
  else if Bytecode.sizeLimit < code.size then .error (.tooLong code.size)
  else
    match Bytecode.textureSites code with
    | .error e => .error (.malformed e)
    | .ok _ => .ok ⟨code, [], true⟩

/-- The ids of the patches in order. -/
def resolve (resolver : String → Option Nat) : List Patch → Array Nat → Except LinkError (List Nat)
  | [], done => .ok done.toList
  | patch :: rest, done =>
    match resolver patch.name with
    | none => .error (.unresolved patch.name)
    | some id =>
      if id < Bytecode.limit24 then resolve resolver rest (done.push id)
      else .error (.idTooLarge patch.name id)

/-- `code` with a three-byte number written at each offset. -/
def writeFields (code : Array UInt8) (fields : List (Nat × Nat)) : Array UInt8 :=
  fields.foldl (fun code (offset, value) => Bytes.write24 code offset value) code

/-- The program with every name resolved. When one cannot be, no byte changes and the program is unlinked. -/
def link (p : Program) (resolver : String → Option Nat) : Program × Except LinkError Unit :=
  match resolve resolver p.patches #[] with
  | .error e => ({ p with linked := false }, .error e)
  | .ok ids => ({ p with code := writeFields p.code ((p.patches.map (·.field)).zip ids), linked := true }, .ok ())

/-- The texture names that are still to be linked, each once. -/
def unresolvedNames (p : Program) : List String :=
  if p.linked then [] else (p.patches.map (·.name)).eraseDups

def ensureLinked (p : Program) : Except LinkError Unit :=
  if p.linked then .ok () else .error (.unlinked p.unresolvedNames)

/-- The new id at each offset of `code`, all looked up in `table`. -/
def renamedFields (code : Array UInt8) (table : Array Nat) :
    List Nat → Array (Nat × Nat) → Except CodeError (List (Nat × Nat))
  | [], done => .ok done.toList
  | field :: rest, done =>
    let old := Bytes.read24 code field
    match table[old]? with
    | none => .error (.idOutsideTable old field table.size)
    | some new =>
      if new < Bytecode.limit24 then renamedFields code table rest (done.push (field, new))
      else .error (.renamedIdTooLarge new)

/-- The bytes with every reachable texture id `i` replaced by `table[i]`. -/
def renamed (code : Array UInt8) (table : Array Nat) : Except CodeError (Array UInt8) :=
  match Bytecode.textureSites code with
  | .error e => .error (.malformed e)
  | .ok sites => do pure (writeFields code (← renamedFields code table sites #[]))

/-- Why the ids of a program are not renamed. -/
inductive RenameError where
  | unlinked (e : LinkError)
  | code (e : CodeError)
deriving DecidableEq, Repr

/-- The linked program with its reachable ids renamed. -/
def rename (p : Program) (table : Array Nat) : Except RenameError Program :=
  match p.ensureLinked with
  | .error e => .error (.unlinked e)
  | .ok _ =>
    match renamed p.code table with
    | .error e => .error (.code e)
    | .ok code => .ok { p with code }

/-- The readable listing, with the names that are still to be linked. -/
def listing (p : Program) : String := Bytecode.listing p.code (if p.linked then [] else p.patches)

end Program

end TextureLoom
