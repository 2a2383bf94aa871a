import TextureLoom.Recipe
import TextureLoom.Atlas.Data

set_option autoImplicit false

namespace TextureLoom

/-- What can go wrong in a job, from a source text to an atlas. -/
inductive Failure where
  | compile (e : Compile.CompileError)
  | link (e : LinkError)
  | bake (e : BakeError)
  | code (e : CodeError)
  | data (e : Atlas.DataError)
  | config (e : Atlas.ConfigError)
  /-- The device has no room for the image of a new atlas. -/
  | atlasImage (e : Atlas.DeviceError)
deriving DecidableEq, Repr

namespace Failure

def message : Failure → String
  | .compile e => "compile error: " ++ e.message
  | .link e => "link error: " ++ e.message
  | .bake e => "bake error: " ++ e.message
  | .code e => "input error: " ++ e.message
  | .data e => "input error: " ++ e.message
  | .config e => "config error: " ++ e.message
  | .atlasImage _ => "creating atlas image"

def ofRename : Program.RenameError → Failure
  | .unlinked e => .link e
  | .code e => .code e

def ofCreate : Atlas.CreateError → Failure
  | .config e => .config e
  | .image e => .atlasImage e

end Failure

/-- The image of a linked program at a time. -/
def Program.image (p : Program) (provider : Provider) (seconds : Float) : Except Failure Image := do
  p.ensureLinked.mapError .link
  (bake p.code provider seconds).1.mapError .bake

end TextureLoom
