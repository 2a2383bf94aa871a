import TextureLoom.Pipeline.Basic
import TextureLoom.Source.Lexer

set_option autoImplicit false

namespace TextureLoom.Pipeline

open Source

/-- The tokens ahead and the offset behind the last one. -/
structure Cursor where
  ahead : List Token
  stop : Nat

namespace Cursor

def kind (c : Cursor) : Kind :=
  match c.ahead with
  | [] => .finish
  | token :: _ => token.kind

/-- The kind of the token after the next one. -/
def following (c : Cursor) : Kind :=
  match c.ahead with
  | _ :: token :: _ => token.kind
  | _ => .finish

def offset (c : Cursor) : Nat :=
  match c.ahead with
  | [] => c.stop
  | token :: _ => token.start

def advance (c : Cursor) : Cursor := { c with ahead := c.ahead.tail }

end Cursor

abbrev Parser := StateT Cursor (Except SyntaxError)

namespace Parser

def peek : Parser Kind := fun c => .ok (c.kind, c)

def peekFollowing : Parser Kind := fun c => .ok (c.following, c)

def offset : Parser Nat := fun c => .ok (c.offset, c)

def advance : Parser Unit := fun c => .ok ((), c.advance)

def failAt {α : Type} (offset : Nat) (complaint : Complaint) : Parser α := fun _ => .error ⟨offset, complaint⟩

/-- Fails at the next token. -/
def fail {α : Type} (complaint : Complaint) : Parser α := fun c => .error ⟨c.offset, complaint⟩

/-- Passes a token of this kind, or fails. -/
def expect (wanted : Kind) : Parser Unit := do
  let found ← peek
  if found = wanted then advance else fail (.expected wanted found)

/-- Passes a token of this kind if it is next. -/
def accept (wanted : Kind) : Parser Bool := do
  let found ← peek
  if found = wanted then
    advance
    pure true
  else pure false

/-! The rules below take the parsers of what they contain as arguments, and `bound` limits their loops: each turn
passes a token, so the number of tokens is enough. `value` and `nested` at the end close the circle. -/

/-- A value, with a name when an equals sign follows one. -/
def arg (value : Parser Value) : Parser Arg := do
  let start ← offset
  let found ← peek
  let following ← peekFollowing
  match found, following with
  | .ident name, .equals =>
    advance
    advance
    pure ⟨some name, ← value, start⟩
  | _, _ => pure ⟨none, ← value, start⟩

/-- Arguments up to the closing parenthesis, behind those already read. -/
def argsBehind (arg : Parser Arg) : Nat → Array Arg → Parser (List Arg)
  | 0, _ => fail .nestedTooDeep
  | bound + 1, read => do
    let a ← arg
    if ← accept .comma then argsBehind arg bound (read.push a)
    else
      expect .closeParen
      pure (read.push a).toList

/-- An operation name and, when a parenthesis follows, its arguments. -/
def call (bound : Nat) (arg : Parser Arg) : Parser Call := do
  let start ← offset
  match ← peek with
  | .ident name =>
    advance
    if ← accept .openParen then
      if ← accept .closeParen then pure ⟨name, [], start⟩
      else pure ⟨name, ← argsBehind arg bound #[], start⟩
    else pure ⟨name, [], start⟩
  | found => failAt start (.missingOperation found)

/-- Stages while arrows follow, behind those already read. -/
def stagesBehind (call : Parser Call) : Nat → Array Call → Parser (List Call)
  | 0, read => pure read.toList
  | bound + 1, read => do
    if ← accept .pipe then
      let stage ← call
      stagesBehind call bound (read.push stage)
    else pure read.toList

/-- The size and colour of a fill, behind its width. -/
def fillBehind (width : Int) (start : Nat) : Parser Base := do
  let found ← peek
  if found = .cross || found = .ident "x" || found = .ident "X" then
    advance
    match ← peek with
    | .number height =>
      advance
      match ← peek with
      | .ident color | .str color =>
        advance
        pure (.fill width height color start)
      | other => fail (.fillWithoutColor other)
    | _ => fail .sizeWithoutHeight
  else fail .sizeWithoutCross

/-- A fill, a call that makes an image, or a texture name. -/
def base (call : Parser Call) : Parser Base := do
  let start ← offset
  let following ← peekFollowing
  match ← peek with
  | .number width =>
    advance
    fillBehind width start
  | .ident name =>
    if name = "anim" && following = .openParen then pure (.sheet (← call))
    else if name = "combine" && following = .openParen then pure (.canvas (← call))
    else
      advance
      pure (.texture name start)
  | .str name =>
    advance
    pure (.texture name start)
  | other => failAt start (.missingBase other)

/-- The `name=` arguments of a nested form, the last one counting. -/
def textureName (arg : Parser Arg) : Nat → Parser Pipeline
  | 0 => fail .nestedTooDeep
  | bound + 1 => do
    let a ← arg
    match a.name with
    | none => failAt a.offset .unnamedTextureArgument
    | some name =>
      if name = "name" || name = "tex" then
        match a.value.text? with
        | none => failAt a.offset .textureNameNotText
        | some text =>
          if ← accept .comma then textureName arg bound
          else pure ⟨.texture text a.offset, []⟩
      else failAt a.offset (.unknownTextureArgument name)

def stages (bound : Nat) (arg : Parser Arg) : Parser (List Call) := stagesBehind (call bound arg) bound #[]

/-- A whole pipeline, with or without the keyword in front. -/
def whole (bound : Nat) (nested : Parser Pipeline) (arg : Parser Arg) : Parser Pipeline := do
  let found ← peek
  let following ← peekFollowing
  if found = .ident "tex" && following = .openParen then
    let inner ← nested
    let more ← stages bound arg
    pure { inner with stages := inner.stages ++ more }
  else
    let namesTexture := match following with
      | .pipe | .finish | .closeParen | .comma => true
      | _ => false
    if found = .ident "tex" && !namesTexture then advance
    let first ← base (call bound arg)
    pure ⟨first, ← stages bound arg⟩

/-- A nested form, its trailing stages left to the caller. `room` counts the forms that may still be opened, this
one included, and `value` reads values where `room` more may be. -/
def nested (bound : Nat) (value : Nat → Parser Value) : Nat → Parser Pipeline
  | 0 => fail .nestedTooDeep
  | room + 1 => do
    advance
    if ← accept .openParen then
      let inner ←
        if (← peekFollowing) = .equals then textureName (arg (value room)) bound
        else whole bound (nested bound value room) (arg (value room))
      expect .closeParen
      pure inner
    else pure ⟨← base (call bound (arg (value room))), []⟩

/-- A value. `turns` counts the nested forms that may still follow each other outward, one for each token. -/
def value (bound : Nat) : Nat → Nat → Parser Value
  | 0, _ => fail .nestedTooDeep
  | turns + 1, room => do
    let found ← peek
    let following ← peekFollowing
    let opensNested := match following with
      | .openParen | .ident _ | .str _ | .number _ => true
      | _ => false
    if found = .ident "tex" && opensNested then
      let inner ← nested bound (value bound turns) room
      let more ← stages bound (arg (value bound turns room))
      pure (.nested { inner with stages := inner.stages ++ more })
    else
      match found with
      | .number n =>
        advance
        pure (.int n)
      | .str content =>
        advance
        pure (.str content)
      | .ident name =>
        advance
        pure (.ident name)
      | other => fail (.missingValue other)

/-- A pipeline and nothing behind it. -/
def program (bound : Nat) : Parser Pipeline := do
  let values := value bound bound
  let p ← whole bound (nested bound values nestingLimit) (arg (values nestingLimit))
  expect .finish
  pure p

end Parser

/-- The pipeline of a token sequence that ends at offset `stop`. -/
def ofTokens? (tokens : List Token) (stop : Nat) : Except SyntaxError Pipeline := do
  let (p, _) ← (Parser.program (tokens.length + 1)).run ⟨tokens, stop⟩
  pure p

/-- The pipeline that a source text describes. -/
def parse? (text : String) : Except SyntaxError Pipeline := do
  let tokens ← lex text
  ofTokens? tokens text.utf8ByteSize

end TextureLoom.Pipeline
