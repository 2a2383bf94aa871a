import TextureLoom.Failure
import TextureLoom.Cache.Basic
import TextureLoom.Atlas.Flush
import TextureLoom.CommandLine.Path
import TextureLoom.CommandLine.Request

set_option autoImplicit false

namespace TextureLoom.CommandLine

/-- Why a run ends early. -/
inductive Complaint where
  | job (e : Failure)
  | unreadableTexture (path : String)
  | tooWide (path : String)
  | tooTall (path : String)
  | repeatedName (name : String)
  | unreadableConfig (path : String)
  | uncreatableFolder (path : String)
  | unwritablePicture (path : String)
  | refusedCommands (e : Atlas.DeviceError)
  | lostImage
deriving DecidableEq, Repr

def Complaint.message : Complaint → String
  | .job e => e.message
  | .unreadableTexture path => s!"read texture '{path}'"
  | .tooWide path => s!"texture '{path}' is too wide"
  | .tooTall path => s!"texture '{path}' is too tall"
  | .repeatedName name => s!"texture name '{name}' given twice"
  | .unreadableConfig path => s!"read config '{path}'"
  | .uncreatableFolder path => s!"create output dir '{path}'"
  | .unwritablePicture path => s!"write png '{path}'"
  | .refusedCommands _ => "replay atlas commands"
  | .lostImage => "atlas image vanished during readback"

/-- Where a command runs: how it reads and writes files and prints. -/
structure Host (m : Type → Type) where
  readPicture : String → m (Option Image)
  readText : String → m (Option String)
  /-- Makes a folder and those above it, unless they exist; whether they do now. -/
  makeFolder : String → m Bool
  /-- Whether the picture was written. -/
  writePicture : String → Image → m Bool
  print : String → m Unit
  /-- Prints a line beside the output. -/
  note : String → m Unit

section

variable {m : Type → Type} [Monad m]

/-- Textures with the names that sources call them by; their ids count from zero. -/
abbrev Textures := List (String × TextureView)

def Textures.resolve (textures : Textures) (name : String) : Option Nat :=
  textures.findIdx? fun (n, _) => n == name

def Textures.provider (textures : Textures) (id : Nat) : Option TextureView := (textures[id]?).map (·.2)

/-- The textures of a command, read one after the other. -/
def loadTextures (host : Host m) : List NamedPath → Textures → ExceptT Complaint m Textures
  | [], textures => pure textures
  | named :: rest, textures => do
    match ← if Path.namesPicture named.path then host.readPicture named.path else pure none with
    | none => throw (.unreadableTexture named.path)
    | some img =>
      if 0x10000 ≤ img.width then throw (.tooWide named.path)
      else if 0x10000 ≤ img.height then throw (.tooTall named.path)
      else if (textures.resolve named.name).isSome then throw (.repeatedName named.name)
      else loadTextures host rest (textures ++ [(named.name, ⟨img.width, img.height, img.pixels⟩)])

/-- A source compiled and linked to the textures. -/
def linkedProgram (textures : Textures) (source : String) : Except Complaint Program := do
  let program ← (Program.compile source).mapError fun e => .job (.compile e)
  match program.link textures.resolve with
  | (program, .ok _) => pure program
  | (_, .error e) => throw (.job (.link e))

/-- A step that can fail, with the complaint that its failure makes. -/
def attempt {ε α : Type} (complain : ε → Complaint) (result : Except ε α) : ExceptT Complaint m α :=
  ExceptT.mk (pure (result.mapError complain))

/-- Writes a picture, with the folders that its path needs. -/
def write (host : Host m) (path : String) (img : Image) : ExceptT Complaint m Unit := do
  if let some folder := Path.folder? path then
    unless ← host.makeFolder folder do throw (.uncreatableFolder folder)
  unless ← host.writePicture path img do throw (.unwritablePicture path)
  host.note s!"wrote {path}"

/-- Prints the listing of a source and the texture names in it. -/
def runListing (host : Host m) (source : String) : ExceptT Complaint m Unit := do
  let program ← attempt (fun e => .job (.compile e)) (Program.compile source)
  host.print program.listing
  match program.unresolvedNames with
  | [] => pure ()
  | names => host.print ("unresolved: " ++ ", ".intercalate names ++ "\n")

def runBake (host : Host m) (source : String) (paths : List NamedPath) (seconds : Float) (out : String) :
    ExceptT Complaint m Unit := do
  let textures ← loadTextures host paths []
  let program ← attempt id (linkedProgram textures source)
  let img ← attempt (fun e => .job (.bake e)) (bake program.code textures.provider seconds).1
  write host out img

/-- The configuration in a file, or the default one. -/
def loadConfig (host : Host m) : Option String → ExceptT Complaint m Atlas.Config
  | none => pure {}
  | some path => do
    match ← host.readText path with
    | none => throw (.unreadableConfig path)
    | some text => attempt (fun e => .job (.config e)) (Atlas.Config.parse text)

/-- Caches the sources in order; their atlas ids. -/
def enterAll (textures : Textures) (cache : Cache) (sources : List String) : Except Complaint (Cache × List Nat) :=
  sources.foldlM (fun (cache, ids) source => do
    let program ← linkedProgram textures source
    let recipe ← program.recipe.mapError fun e => .job (.link e)
    let (id, cache) := cache.get recipe
    pure (cache, ids ++ [id])) (cache, [])

/-- The line on where a source lies. -/
def placementLine (atlas : Atlas) (id : Nat) (source : String) : String :=
  match atlas.placement? id with
  | some p => s!"{id}\tlayer {p.layer} at {p.x},{p.y} ({p.width}x{p.height} padded)\t{source}\n"
  | none => s!"{id}\tnot placed\t{source}\n"

/-- The alignment of the device that the command draws on. -/
def deviceAlignment : Nat := 4

def runAtlas (host : Host m) (sources : List String) (paths : List NamedPath) (config : Option String)
    (seconds : Float) (out : String) : ExceptT Complaint m Unit := do
  let config ← loadConfig host config
  let textures ← loadTextures host paths []
  let (atlas, device, staging) ← attempt (fun e => .job (.ofCreate e))
    (Atlas.create config (Atlas.Device.create deviceAlignment) none)
  let cache := textures.zipIdx.foldl (fun (cache : Cache) ((_, texture), id) => cache.setTexture id texture)
    (Cache.ofAtlas atlas)
  let (cache, ids) ← attempt id (enterAll textures cache sources)
  let (cache, _) := (cache.animate seconds).1.rebake
  let frame := cache.atlas.flush device staging
  for event in frame.events do host.note s!"atlas event: {event.name}"
  let (device, outcome) := frame.device.submit frame.staging frame.commands.toList
  attempt .refusedCommands outcome
  let (atlas, device, _) := frame.atlas.deviceFinished device frame.staging
  for (id, source) in ids.zip sources do host.print (placementLine atlas id source)
  match device.layerImage? frame.atlas.image.handle 0 with
  | none => throw .lostImage
  | some img => write host out img

/-- Runs a request. -/
def Request.run (host : Host m) : Request → ExceptT Complaint m Unit
  | .listing source => runListing host source
  | .bake source paths seconds out => runBake host source paths seconds out
  | .atlas sources paths config seconds out => runAtlas host sources paths config seconds out

end

/-- The exit code of a run. -/
def exitCode {α : Type} : Except Complaint α → UInt8
  | .ok _ => 0
  | .error _ => 1

end TextureLoom.CommandLine
