set_option autoImplicit false

namespace TextureLoom.CommandLine

/-- Why the arguments of a command make no sense. -/
inductive Misuse where
  | noCommand
  | unknownCommand (name : String)
  | unknownOption (argument : String)
  | surplus (argument : String)
  | repeatedOption (name : String)
  | needlessValue (name : String)
  | missingValue (name : String)
  | badValue (name value : String)
  | missingOption (name : String)
  | missingOperand (name : String)
deriving DecidableEq, Repr

def Misuse.message : Misuse → String
  | .noCommand => "a command is required"
  | .unknownCommand name => s!"unrecognized command '{name}'"
  | .unknownOption argument => s!"unexpected argument '{argument}' found"
  | .surplus argument => s!"unexpected argument '{argument}' found"
  | .repeatedOption name => s!"the argument '--{name}' cannot be used multiple times"
  | .needlessValue name => s!"the argument '--{name}' takes no value"
  | .missingValue name => s!"a value is required for '--{name}'"
  | .badValue name value => s!"invalid value '{value}' for '--{name}'"
  | .missingOption name => s!"the option '--{name}' was not provided"
  | .missingOperand name => s!"the argument '{name}' was not provided"

/-- An option of a command; each takes a value. -/
structure OptionForm where
  name : String
  repeatable : Bool
  accepts : String → Bool

/-- What a command takes. -/
structure Form where
  options : List OptionForm
  /-- Operands, at most, unless any number may be given. -/
  operandLimit : Option Nat

/-- Why arguments are not taken in: help is asked for, or they make no sense. -/
inductive Stop where
  | help
  | misuse (e : Misuse)
deriving DecidableEq, Repr

/-- The arguments of a command, taken apart. -/
structure Given where
  operands : List String := []
  /-- Name and value of each option. -/
  options : List (String × String) := []
deriving DecidableEq, Repr

namespace Given

/-- The values of an option in order. -/
def values (g : Given) (name : String) : List String :=
  g.options.filterMap fun (n, value) => if n = name then some value else none

def value? (g : Given) (name : String) : Option String := (g.values name).head?

/-- One operand more. -/
def addOperand (form : Form) (g : Given) (operand : String) : Except Stop Given :=
  match form.operandLimit with
  | some limit =>
    if limit ≤ g.operands.length then .error (.misuse (.surplus operand))
    else .ok { g with operands := g.operands ++ [operand] }
  | none => .ok { g with operands := g.operands ++ [operand] }

/-- One option more. -/
def addOption (option : OptionForm) (g : Given) (value : String) : Except Stop Given :=
  if !option.repeatable && (g.value? option.name).isSome then .error (.misuse (.repeatedOption option.name))
  else if option.accepts value then .ok { g with options := g.options ++ [(option.name, value)] }
  else .error (.misuse (.badValue option.name value))

end Given

/-- The shape of one argument. -/
inductive Shape where
  /-- Two dashes alone: all that follows are operands. -/
  | divider
  /-- Two dashes and a name, with the value behind an equals sign if there is one. -/
  | long (name : String) (value : Option String)
  /-- One dash and letters. -/
  | short (letters : List Char)
  | operand
deriving DecidableEq, Repr

def Shape.of (argument : String) : Shape :=
  match argument.toList with
  | ['-', '-'] => .divider
  | '-' :: '-' :: rest =>
    let name := String.ofList (rest.takeWhile (· ≠ '='))
    match rest.dropWhile (· ≠ '=') with
    | _ :: value => .long name (some (String.ofList value))
    | [] => .long name none
  | '-' :: letter :: rest => .short (letter :: rest)
  | _ => .operand

/-- What to do about a long option that a command does not have. -/
def unknownLong (argument name : String) (value : Option String) : Stop :=
  if name ≠ "help" then .misuse (.unknownOption argument)
  else if value.isSome then .misuse (.needlessValue name)
  else .help

/-- Takes the arguments of a command in, one after the other. -/
def scan (form : Form) : List String → Given → Except Stop Given
  | [], given => .ok given
  | argument :: rest, given =>
    match Shape.of argument with
    | .divider => rest.foldlM (Given.addOperand form) given
    | .operand => do scan form rest (← given.addOperand form argument)
    | .short ('h' :: _) => .error .help
    | .short _ => .error (.misuse (.unknownOption argument))
    | .long name value? =>
      match form.options.find? fun option => option.name = name with
      | none => .error (unknownLong argument name value?)
      | some option =>
        match value? with
        | some value => do scan form rest (← given.addOption option value)
        | none =>
          match rest with
          | [] => .error (.misuse (.missingValue name))
          | value :: rest =>
            if Shape.of value = .operand then do scan form rest (← given.addOption option value)
            else .error (.misuse (.missingValue name))

end TextureLoom.CommandLine
