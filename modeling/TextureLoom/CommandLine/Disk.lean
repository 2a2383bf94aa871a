import TextureLoom.CommandLine.Run

set_option autoImplicit false

namespace TextureLoom.CommandLine

/-- What a name on a disk stands for. -/
inductive Node where
  | folder (entries : List (String × Node))
  | picture (img : Image)
  | text (content : String)

namespace Node

def isFolder : Node → Bool
  | .folder _ => true
  | _ => false

/-- What names lead to, one folder after the other. -/
def find? : Node → List String → Option Node
  | node, [] => some node
  | .folder entries, name :: rest =>
    match Table.get? entries name with
    | some inner => inner.find? rest
    | none => none
  | _, _ :: _ => none

/-- The node with another one where names lead to; folders that are missing on the way are made. -/
def put? : Node → List String → Node → Option Node
  | _, [], node => some node
  | .folder entries, name :: rest, node =>
    (((Table.get? entries name).getD (.folder [])).put? rest node).map fun inner =>
      .folder (Table.insert entries name inner)
  | _, _ :: _, _ => none

end Node

/-- A disk in memory: all that is in its outermost folder. What was printed is kept beside it. -/
structure Disk where
  root : Node := .folder []
  output : String := ""
  notes : String := ""

namespace Disk

/-- Bytes of a name, at most. -/
def nameLimit : Nat := 255

/-- Bytes of a path, at most. -/
def pathLimit : Nat := 4095

/-- The parts of a path, unless it is too long to be followed. -/
def parts? (path : String) : Option (List String) :=
  if pathLimit < path.utf8ByteSize then none else some (Path.parts path)

def isFolder (d : Disk) (place : List String) : Bool := (d.root.find? place).any Node.isFolder

/-- Where a part of a path leads to from a folder. -/
def step? (place : List String) (part : String) : Option (List String) :=
  if Path.isIdle part then some place
  else if part = ".." then some place.dropLast
  else if nameLimit < part.utf8ByteSize then none
  else some (place ++ [part])

/-- Where a path leads to; each of its parts has to start from a folder. -/
def place? (d : Disk) (path : String) : Option (List String) := do
  (← parts? path).foldlM (fun place part => if d.isFolder place then step? place part else none) []

/-- What is at the end of a path. -/
def find? (d : Disk) (path : String) : Option Node := (d.place? path).bind d.root.find?

def picture? (d : Disk) (path : String) : Option Image :=
  match d.find? path with
  | some (.picture img) => some img
  | _ => none

def text? (d : Disk) (path : String) : Option String :=
  match d.find? path with
  | some (.text content) => some content
  | _ => none

/-- The disk with a node at a place. -/
def put? (d : Disk) (place : List String) (node : Node) : Option Disk :=
  (d.root.put? place node).map fun root => { d with root }

/-- The folder that a part of a path leads to, made if nothing is there. -/
def enterFolder : Disk × List String → String → Option (Disk × List String)
  | (d, place), part => do
    let place ← step? place part
    match d.root.find? place with
    | some node => if node.isFolder then some (d, place) else none
    | none => (d.put? place (.folder [])).map fun d => (d, place)

/-- The disk with all folders of a path. -/
def makeFolder? (d : Disk) (path : String) : Option Disk := do
  ((← parts? path).foldlM enterFolder (d, [])).map (·.1)

/-- The disk with a file at the end of a path, in place of another file if there is one. -/
def write? (d : Disk) (path : String) (file : Node) : Option Disk := do
  let place ← d.place? path
  if d.isFolder place then none else d.put? place file

/-- The disk after a change that may not be possible, and whether it was. -/
def attempt (change : Disk → Option Disk) : StateM Disk Bool := fun d =>
  match change d with
  | some changed => (true, changed)
  | none => (false, d)

/-- Runs commands on a disk in memory. -/
def host : Host (StateM Disk) where
  readPicture path := fun d => (d.picture? path, d)
  readText path := fun d => (d.text? path, d)
  makeFolder path := attempt (·.makeFolder? path)
  writePicture path img := attempt (·.write? path (.picture img))
  print text := modify fun d => { d with output := d.output ++ text }
  note line := modify fun d => { d with notes := d.notes ++ line ++ "\n" }

end Disk

end TextureLoom.CommandLine
