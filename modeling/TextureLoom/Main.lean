import TextureLoom.CommandLine.Run
import TextureLoom.Png.Encode

set_option autoImplicit false

namespace TextureLoom.CommandLine

/-- The answer of an action, if it does not fail. -/
def answer? {α : Type} (action : IO α) : IO (Option α) := do
  try pure (some (← action)) catch _ => pure none

/-- Files and streams of the system. -/
def systemHost : Host IO where
  readPicture path := do pure ((← answer? (IO.FS.readBinFile path)).bind Png.decode?)
  readText path := answer? (IO.FS.readFile path)
  makeFolder path := do pure (← answer? (IO.FS.createDirAll path)).isSome
  writePicture path img := do pure (← answer? (IO.FS.writeBinFile path (Png.encode img))).isSome
  print := IO.print
  note := IO.eprintln

/-- Runs what the arguments ask for; the exit code. -/
def runArguments (arguments : List String) : IO UInt32 := do
  match parse arguments with
  | .error reply =>
    for line in reply.lines do
      if reply.code = 0 then IO.println line else IO.eprintln line
    pure reply.code.toUInt32
  | .ok request =>
    let outcome ← (request.run systemHost).run
    if let .error complaint := outcome then IO.eprintln s!"Error: {complaint.message}"
    pure (exitCode outcome).toUInt32

end TextureLoom.CommandLine

def main (arguments : List String) : IO UInt32 := TextureLoom.CommandLine.runArguments arguments
