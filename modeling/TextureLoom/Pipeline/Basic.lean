set_option autoImplicit false

namespace TextureLoom

mutual

/-- How a texture is made: a base image, then stages in order. -/
structure Pipeline where
  base : Base
  stages : List Call

inductive Base where
  /-- A texture by name. -/
  | texture (name : String) (offset : Nat)
  /-- One colour over a size. -/
  | fill (width height : Int) (color : String) (offset : Nat)
  /-- A frame of an animated sheet. -/
  | sheet (call : Call)
  /-- Several images placed on an empty canvas. -/
  | canvas (call : Call)

/-- A named operation and its arguments. -/
structure Call where
  name : String
  args : List Arg
  offset : Nat

structure Arg where
  name : Option String
  value : Value
  offset : Nat

inductive Value where
  | int (value : Int)
  | str (content : String)
  | ident (name : String)
  | nested (pipeline : Pipeline)

end

/-- The text of a string or identifier. -/
def Value.text? : Value → Option String
  | .str content => some content
  | .ident name => some name
  | _ => none

/-- Whether the argument is written with one of `names`. -/
def Arg.isNamed (names : List String) (a : Arg) : Bool :=
  match a.name with
  | some name => names.contains name
  | none => false

/-- The first argument with one of `names`, else the unnamed argument at `position`. -/
def Call.arg? (call : Call) (names : List String) (position : Option Nat) : Option Arg :=
  match call.args.find? (Arg.isNamed names) with
  | some a => some a
  | none => position.bind fun i => (call.args.filter (·.name.isNone))[i]?

end TextureLoom
