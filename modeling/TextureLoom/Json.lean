import TextureLoom.Text.Numeral

set_option autoImplicit false

namespace TextureLoom

/-- A JSON document. Numbers keep their text, and objects the order and repetition of their members. -/
inductive Json where
  | null
  | bool (value : Bool)
  | number (text : String)
  | string (content : String)
  | array (items : List Json)
  | object (members : List (String × Json))
deriving Inhabited

namespace Json

def isBlank (c : Char) : Bool := c == ' ' || c == '\n' || c == '\t' || c == '\r'

def skipBlanks (cs : List Char) : List Char := cs.dropWhile isBlank

/-- The value of four hexadecimal digits. -/
def hex4? (a b c d : Char) : Option Nat := do
  pure ((((← Text.hexValue? a) * 16 + (← Text.hexValue? b)) * 16 + (← Text.hexValue? c)) * 16
    + (← Text.hexValue? d))

/-- The character of a short escape. -/
def shortEscape? (c : Char) : Option Char :=
  if c == '"' || c == '\\' || c == '/' then some c
  else if c == 'b' then some '\x08'
  else if c == 'f' then some '\x0c'
  else if c == 'n' then some '\n'
  else if c == 'r' then some '\r'
  else if c == 't' then some '\t'
  else none

/-- The character of a pair of surrogates. -/
def surrogates? (high low : Nat) : Option Char :=
  if 0xd800 ≤ high && high < 0xdc00 && 0xdc00 ≤ low && low < 0xe000 then
    some (Char.ofNat (0x10000 + (high - 0xd800) * 0x400 + (low - 0xdc00)))
  else none

/-- A string behind its opening quote, and the text behind it; `read` holds what was read, reversed. -/
def stringBody (read : List Char) : List Char → Option (String × List Char)
  | [] => none
  | '"' :: rest => some (String.ofList read.reverse, rest)
  | '\\' :: 'u' :: a :: b :: c :: d :: rest =>
    match hex4? a b c d with
    | none => none
    | some unit =>
      if unit < 0xd800 || 0xe000 ≤ unit then stringBody (Char.ofNat unit :: read) rest
      else
        match rest with
        | '\\' :: 'u' :: e :: f :: g :: h :: rest =>
          match (hex4? e f g h).bind (surrogates? unit) with
          | some c => stringBody (c :: read) rest
          | none => none
        | _ => none
  | '\\' :: c :: rest =>
    match shortEscape? c with
    | some e => stringBody (e :: read) rest
    | none => none
  | c :: rest => if c.toNat < 0x20 || c == '\\' then none else stringBody (c :: read) rest

/-- One or more digits, and the text behind them. -/
def digits? (cs : List Char) : Option (List Char × List Char) :=
  let digits := cs.takeWhile Char.isDigit
  if digits.isEmpty then none else some (digits, cs.dropWhile Char.isDigit)

/-- Digits without a needless zero in front. -/
def wholePart? (cs : List Char) : Option (List Char × List Char) :=
  match cs with
  | '0' :: rest => some (['0'], rest)
  | cs => digits? cs

def fractionPart? (cs : List Char) : Option (List Char × List Char) :=
  match cs with
  | '.' :: rest => (digits? rest).map fun (digits, rest) => ('.' :: digits, rest)
  | cs => some ([], cs)

def exponentPart? (cs : List Char) : Option (List Char × List Char) :=
  match cs with
  | mark :: rest =>
    if mark == 'e' || mark == 'E' then
      match rest with
      | sign :: behind =>
        if sign == '+' || sign == '-' then
          (digits? behind).map fun (digits, rest) => (mark :: sign :: digits, rest)
        else (digits? rest).map fun (digits, rest) => (mark :: digits, rest)
      | [] => none
    else some ([], cs)
  | [] => some ([], [])

/-- A number and the text behind it. -/
def number? (cs : List Char) : Option (Json × List Char) := do
  let (sign, cs) := match cs with
    | '-' :: rest => (['-'], rest)
    | cs => ([], cs)
  let (whole, cs) ← wholePart? cs
  let (fraction, cs) ← fractionPart? cs
  let (exponent, cs) ← exponentPart? cs
  pure (.number (String.ofList (sign ++ whole ++ fraction ++ exponent)), cs)

mutual

/-- A value and the text behind it. Every turn passes a character, so their number is enough. -/
def value? : Nat → List Char → Option (Json × List Char)
  | 0, _ => none
  | turns + 1, cs =>
    match skipBlanks cs with
    | 'n' :: 'u' :: 'l' :: 'l' :: rest => some (.null, rest)
    | 't' :: 'r' :: 'u' :: 'e' :: rest => some (.bool true, rest)
    | 'f' :: 'a' :: 'l' :: 's' :: 'e' :: rest => some (.bool false, rest)
    | '"' :: rest => (stringBody [] rest).map fun (content, rest) => (.string content, rest)
    | '[' :: rest =>
      match skipBlanks rest with
      | ']' :: rest => some (.array [], rest)
      | rest => items? turns #[] rest
    | '{' :: rest =>
      match skipBlanks rest with
      | '}' :: rest => some (.object [], rest)
      | rest => members? turns #[] rest
    | rest => number? rest

/-- The items of an array from the next one on. -/
def items? : Nat → Array Json → List Char → Option (Json × List Char)
  | 0, _, _ => none
  | turns + 1, read, cs =>
    match value? turns cs with
    | none => none
    | some (item, rest) =>
      match skipBlanks rest with
      | ',' :: rest => items? turns (read.push item) rest
      | ']' :: rest => some (.array (read.push item).toList, rest)
      | _ => none

/-- The members of an object from the next one on. -/
def members? : Nat → Array (String × Json) → List Char → Option (Json × List Char)
  | 0, _, _ => none
  | turns + 1, read, cs =>
    match skipBlanks cs with
    | '"' :: rest =>
      match stringBody [] rest with
      | none => none
      | some (key, rest) =>
        match skipBlanks rest with
        | ':' :: rest =>
          match value? turns rest with
          | none => none
          | some (member, rest) =>
            match skipBlanks rest with
            | ',' :: rest => members? turns (read.push (key, member)) rest
            | '}' :: rest => some (.object (read.push (key, member)).toList, rest)
            | _ => none
        | _ => none
    | _ => none

end

/-- The document that a whole text writes. -/
def parse? (text : String) : Option Json :=
  let cs := text.toList
  match value? (2 * cs.length + 2) cs with
  | some (document, rest) => if (skipBlanks rest).isEmpty then some document else none
  | none => none

/-- The number of a plain run of digits. -/
def nat? : Json → Option Nat
  | .number text => if text.toList.all Char.isDigit then text.toNat? else none
  | _ => none

end Json

end TextureLoom
