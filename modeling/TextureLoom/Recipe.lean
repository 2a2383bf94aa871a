import TextureLoom.Program
import TextureLoom.Fingerprint

set_option autoImplicit false

namespace TextureLoom

/-- Linked bytecode with its digest: what a cache knows a pipeline by. -/
structure Recipe where
  digest : UInt64
  code : Array UInt8
deriving DecidableEq

namespace Recipe

def ofCode (code : Array UInt8) : Recipe := ⟨Fingerprint.ofArray code, code⟩

/-- The recipe that shows one texture as it is. -/
def ofTexture (id : Nat) : Except CodeError Recipe :=
  if id < Bytecode.limit24 then
    .ok (ofCode ((Bytecode.Instr.texture (Bytecode.Origin.texture id)).encode ++ [Bytecode.finishCode]).toArray)
  else .error (.idTooLarge id)

/-- Byte strings in dictionary order. -/
def bytesLe : List UInt8 → List UInt8 → Bool
  | [], _ => true
  | _ :: _, [] => false
  | a :: as, b :: bs => a < b || (a == b && bytesLe as bs)

/-- By digest, then by bytes. -/
def le (a b : Recipe) : Bool :=
  a.digest < b.digest || (a.digest == b.digest && bytesLe a.code.toList b.code.toList)

def dependencies (r : Recipe) : List Nat := Bytecode.dependencies r.code

def animations (r : Recipe) : List Bytecode.AnimSpec := Bytecode.animations r.code

end Recipe

/-- The recipe of a linked program. -/
def Program.recipe (p : Program) : Except LinkError Recipe := do
  p.ensureLinked
  pure (.ofCode p.code)

end TextureLoom
