import TextureLoom.Text.Quoted

set_option autoImplicit false

namespace TextureLoom.Source

/-- What a token is. -/
inductive Kind where
  /-- A name, a keyword or a `#` colour. -/
  | ident (name : String)
  | number (value : Int)
  /-- The content of a quoted literal, escapes resolved. -/
  | str (content : String)
  /-- The stage arrow. -/
  | pipe
  | comma
  | openParen
  | closeParen
  | equals
  /-- The cross between the two numbers of a size. -/
  | cross
  /-- The end of the text. -/
  | finish
deriving DecidableEq, Repr, Inhabited

/-- How messages name a token. -/
def Kind.describe : Kind → String
  | .ident name => s!"Ident({Text.quoted name})"
  | .number value => s!"Number({value})"
  | .str content => s!"Str({Text.quoted content})"
  | .pipe => "Pipe"
  | .comma => "Comma"
  | .openParen => "LParen"
  | .closeParen => "RParen"
  | .equals => "Eq"
  | .cross => "X"
  | .finish => "End"

/-- A token and the bytes of the text it covers, `stop` excluded. -/
structure Token where
  kind : Kind
  start : Nat
  stop : Nat
deriving DecidableEq, Repr, Inhabited

end TextureLoom.Source
