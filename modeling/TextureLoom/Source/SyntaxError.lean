import TextureLoom.Source.Token

set_option autoImplicit false

namespace TextureLoom.Source

/-- Nested forms open at once, at most. -/
def nestingLimit : Nat := 16

/-- What is wrong with a source text. -/
inductive Complaint where
  -- characters
  | invalidNumber (digits : String)
  | numberOutOfRange (digits : String)
  | unterminatedString
  | unexpectedCharacter (c : Char)
  -- tokens
  | expected (wanted found : Kind)
  | nestedTooDeep
  | sizeWithoutCross
  | sizeWithoutHeight
  | fillWithoutColor (found : Kind)
  | missingBase (found : Kind)
  | missingOperation (found : Kind)
  | missingValue (found : Kind)
  | textureNameNotText
  | unknownTextureArgument (name : String)
  | unnamedTextureArgument
  -- arguments
  | notATexture (call : String)
  | notANumber (call : String)
  | notAColor (call : String)
  | unknownOperation (name : String)
  | unknownArgument (call name : String)
  | tooManyArguments (call : String)
  | missingArgument (call name : String)
  | sizeOutOfRange (what : String) (value : Int)
  | invalidFillColor (text : String)
  | animationWithoutTexture
  | animationOutOfRange (what : String)
  | negativeFrameRate
  | axisNotText
  | combineNamed
  | combineIncomplete
  | combineTooMany
  | combinePosition (value : Int)
  | percentNotPositive
  | channelsNotText
  | unknownChannel (c : Char)
deriving DecidableEq, Repr

def Complaint.message : Complaint → String
  | .invalidNumber digits => s!"invalid number '{digits}'"
  | .numberOutOfRange digits => s!"number '{digits}' out of range"
  | .unterminatedString => "unterminated string literal"
  | .unexpectedCharacter c => s!"unexpected character '{c}'"
  | .expected wanted found => s!"expected {wanted.describe}, found {found.describe}"
  | .nestedTooDeep => s!"nested tex() deeper than {nestingLimit} levels"
  | .sizeWithoutCross => "expected 'x' in a WxH fill size"
  | .sizeWithoutHeight => "expected fill height after 'x'"
  | .fillWithoutColor found => s!"expected fill color, found {found.describe}"
  | .missingBase found => s!"expected a texture name, fill or anim, found {found.describe}"
  | .missingOperation found => s!"expected operation name, found {found.describe}"
  | .missingValue found => s!"expected a value, found {found.describe}"
  | .textureNameNotText => "texture name must be an identifier or string"
  | .unknownTextureArgument name => s!"unknown tex() argument '{name}'"
  | .unnamedTextureArgument => "tex() takes either name=... or a pipeline"
  | .notATexture call => s!"{call}: expected a texture name or tex(...)"
  | .notANumber call => s!"{call}: expected a number"
  | .notAColor call => s!"{call}: expected a #RRGGBB or #RRGGBBAA color"
  | .unknownOperation name => s!"unknown operation '{name}'"
  | .unknownArgument call name => s!"{call}: unknown argument '{name}'"
  | .tooManyArguments call => s!"{call}: too many arguments"
  | .missingArgument call name => s!"{call}: missing argument '{name}'"
  | .sizeOutOfRange what value => s!"{what} must be 1..=65535 (got {value})"
  | .invalidFillColor text => s!"invalid fill color '{text}'"
  | .animationWithoutTexture => "anim: missing texture"
  | .animationOutOfRange what => s!"anim: {what} must be 0..=65535"
  | .negativeFrameRate => "anim: fps must not be negative"
  | .axisNotText => "anim: axis must be grid, x or y"
  | .combineNamed => "combine takes positional arguments only"
  | .combineIncomplete => "combine expects (w, h, x, y, src, ...) with complete x, y, src triples"
  | .combineTooMany => "combine: too many sources"
  | .combinePosition value => s!"combine: position must be 0..=65535 (got {value})"
  | .percentNotPositive => "lowpart: percent must be greater than zero"
  | .channelsNotText => "invert: channels must be text like \"rgb\""
  | .unknownChannel c => s!"invert: unknown channel '{c}'"

/-- A complaint about the text at a byte offset. -/
structure SyntaxError where
  offset : Nat
  complaint : Complaint
deriving DecidableEq, Repr

def SyntaxError.message (e : SyntaxError) : String :=
  s!"parse error at byte {e.offset}: {e.complaint.message}"

end TextureLoom.Source
