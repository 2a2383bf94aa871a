import TextureLoom.Text.Real
import TextureLoom.CommandLine.Arguments

set_option autoImplicit false

namespace TextureLoom.CommandLine

/-- A texture file under the name that sources call it by. -/
structure NamedPath where
  name : String
  path : String
deriving DecidableEq, Repr

namespace NamedPath

/-- Reads `name=path`. -/
def ofText? (text : String) : Option NamedPath :=
  let cs := text.toList
  match cs.takeWhile (· ≠ '='), cs.dropWhile (· ≠ '=') with
  | c :: name, _ :: d :: path => some ⟨String.ofList (c :: name), String.ofList (d :: path)⟩
  | _, _ => none

end NamedPath

/-- What to run. -/
inductive Request where
  /-- Lists a compiled source. -/
  | listing (source : String)
  /-- Bakes a source into a picture file. -/
  | bake (source : String) (textures : List NamedPath) (seconds : Float) (out : String)
  /-- Bakes sources into an atlas and writes its first layer as a picture file. -/
  | atlas (sources : List String) (textures : List NamedPath) (config : Option String) (seconds : Float) (out : String)

/-- The commands. -/
inductive Topic where
  | listing
  | bake
  | atlas
deriving DecidableEq, Repr

/-- What to answer in place of a run. -/
inductive Reply where
  | help (topic : Option Topic)
  /-- Help on the word for help. -/
  | helpOnHelp
  | version
  | misuse (e : Misuse)
deriving DecidableEq, Repr

def Topic.ofName? : String → Option Topic
  | "disasm" => some .listing
  | "bake" => some .bake
  | "atlas" => some .atlas
  | _ => none

def textureOption : OptionForm := ⟨"tex", true, fun value => (NamedPath.ofText? value).isSome⟩
def timeOption : OptionForm := ⟨"time", false, fun value => (Text.Real.ofText? value).isSome⟩
def outOption : OptionForm := ⟨"out", false, fun value => !value.isEmpty⟩
def configOption : OptionForm := ⟨"config", false, fun value => !value.isEmpty⟩

def Topic.form : Topic → Form
  | .listing => ⟨[], some 1⟩
  | .bake => ⟨[textureOption, timeOption, outOption], some 1⟩
  | .atlas => ⟨[textureOption, configOption, timeOption, outOption], none⟩

namespace Given

def textures (g : Given) : List NamedPath := (g.values "tex").filterMap NamedPath.ofText?

/-- The time given, or zero. -/
def seconds (g : Given) : Float := ((g.value? "time").bind Text.Real.ofText?).getD 0

end Given

/-- The request that complete arguments make. -/
def Topic.request (topic : Topic) (g : Given) : Except Misuse Request :=
  match g.operands with
  | [] => .error (.missingOperand "PROGRAM")
  | source :: _ =>
    match topic, g.value? "out" with
    | .listing, _ => .ok (.listing source)
    | _, none => .error (.missingOption "out")
    | .bake, some out => .ok (.bake source g.textures g.seconds out)
    | .atlas, some out => .ok (.atlas g.operands g.textures (g.value? "config") g.seconds out)

/-- The request of a command and its arguments. -/
def Topic.parse (topic : Topic) (arguments : List String) : Except Reply Request :=
  match scan topic.form arguments {} with
  | .error .help => .error (.help (some topic))
  | .error (.misuse e) => .error (.misuse e)
  | .ok given => (topic.request given).mapError .misuse

/-- What help is asked for behind the word for it. -/
def helpReply : List String → Reply
  | [] => .help none
  | ["help"] => .helpOnHelp
  | [name] =>
    match Topic.ofName? name with
    | some topic => .help (some topic)
    | none => .misuse (.unknownCommand name)
  | _ :: name :: _ => .misuse (.unknownCommand name)

/-- The request that all arguments make. -/
def parse : List String → Except Reply Request
  | [] => .error (.misuse .noCommand)
  | first :: rest =>
    match Topic.ofName? first, Shape.of first with
    | some topic, _ => topic.parse rest
    | none, .short ('h' :: _) | none, .long "help" none => .error (.help none)
    | none, .short ('V' :: _) | none, .long "version" none => .error .version
    | none, .operand => .error (if first = "help" then helpReply rest else .misuse (.unknownCommand first))
    | none, _ => .error (.misuse (.unknownOption first))

/-- The lines of help. -/
def helpLines : Option Topic → List String
  | none => [
    "Usage: texpipe <COMMAND>",
    "",
    "Commands:",
    "  disasm  Compile a program and print its bytecode",
    "  bake    Bake a program into a PNG",
    "  atlas   Bake programs through the pipeline cache into a headless atlas and dump layer 0",
    "  help    Print this message or the help of the given subcommand(s)",
    "",
    "Options:",
    "  -h, --help     Print help",
    "  -V, --version  Print version"]
  | some .listing => [
    "Compile a program and print its bytecode",
    "",
    "Usage: texpipe disasm <PROGRAM>",
    "",
    "Arguments:",
    "  <PROGRAM>  Program source, e.g. `stone |> overlay(tex(moss) |> opacity(128))`",
    "",
    "Options:",
    "  -h, --help  Print help"]
  | some .bake => [
    "Bake a program into a PNG",
    "",
    "Usage: texpipe bake [OPTIONS] --out <OUT> <PROGRAM>",
    "",
    "Arguments:",
    "  <PROGRAM>  Program source",
    "",
    "Options:",
    "      --tex <TEXTURES>  Raw texture as `name=path.png`. Repeatable",
    "      --time <TIME>     Time in seconds, for animations [default: 0]",
    "      --out <OUT>       Output PNG path",
    "  -h, --help            Print help"]
  | some .atlas => [
    "Bake programs through the pipeline cache into a headless atlas and dump layer 0",
    "",
    "Usage: texpipe atlas [OPTIONS] --out <OUT> <PROGRAMS>...",
    "",
    "Arguments:",
    "  <PROGRAMS>...  Program sources, one atlas entry each",
    "",
    "Options:",
    "      --tex <TEXTURES>   Raw texture as `name=path.png`. Repeatable",
    "      --config <CONFIG>  Atlas configuration JSON. Defaults apply to missing fields",
    "      --time <TIME>      Time in seconds, for animations [default: 0]",
    "      --out <OUT>        Output PNG path for layer 0",
    "  -h, --help             Print help"]

/-- The lines of help on the word for help. -/
def helpOnHelpLines : List String := [
  "Print this message or the help of the given subcommand(s)",
  "",
  "Usage: texpipe help [COMMAND]...",
  "",
  "Arguments:",
  "  [COMMAND]...  Print help for the subcommand(s)"]

namespace Reply

/-- What a reply prints, and whether that is an error. -/
def lines : Reply → List String
  | .help topic => helpLines topic
  | .helpOnHelp => helpOnHelpLines
  | .version => ["texpipe 0.1.0"]
  | .misuse e => ["error: " ++ e.message, "", "For more information, try '--help'."]

/-- The exit code of a reply. -/
def code : Reply → UInt8
  | .misuse _ => 2
  | _ => 0

end Reply

end TextureLoom.CommandLine
