import TextureLoom.Source.SyntaxError

set_option autoImplicit false

namespace TextureLoom.Source

/-- Blanks between tokens: space, tab, line feed, form feed and carriage return. -/
def isBlank (c : Char) : Bool := c == ' ' || c == '\t' || c == '\n' || c == '\x0c' || c == '\r'

def startsName (c : Char) : Bool := c.isAlpha || c == '_' || c == '#'

def continuesName (c : Char) : Bool := c.isAlphanum || c == '_' || c == '.' || c == '-' || c == '#'

/-- Bytes of the characters in UTF-8. -/
def byteLength (cs : List Char) : Nat := cs.foldl (fun count c => count + c.utf8Size) 0

/-- The character that stands for a backslash and `c`. -/
def unescape (c : Char) : Char := if c == 'n' then '\n' else if c == 't' then '\t' else c

/-- The rest of a quoted literal: its content after `read` (reversed), the offset behind the closing quote and
the text from there on, or nothing when no quote closes it. A backslash at the very end stands for itself. -/
def literalBody (read : List Char) (offset : Nat) : List Char → Option (String × Nat × List Char)
  | [] => none
  | c :: rest =>
    if c == '"' then some (String.ofList read.reverse, offset + 1, rest)
    else if c == '\\' then
      match rest with
      | [] => none
      | e :: rest => literalBody (unescape e :: read) (offset + 1 + e.utf8Size) rest
    else literalBody (c :: read) (offset + c.utf8Size) rest

/-- The number with this sign and these digits, if it is a 64-bit integer of 32-bit magnitude. -/
def numberValue (negative : Bool) (digits : List Char) : Except Complaint Int :=
  let text := String.ofList (if negative then '-' :: digits else digits)
  let magnitude := Text.digitsValue digits
  let limit := if negative then 0x8000000000000000 else 0x7fffffffffffffff
  if limit < magnitude then .error (.invalidNumber text)
  else if 0x100000000 ≤ magnitude then .error (.numberOutOfRange text)
  else .ok (if negative then -(magnitude : Int) else magnitude)

/-- What the lexer makes of the front of a text: tokens, none for blanks and comments, and the text behind
them with its offset. -/
structure Bite where
  tokens : List Token
  offset : Nat
  rest : List Char

/-- The bite behind a token that starts at `start`. -/
def Bite.one (kind : Kind) (start stop : Nat) (rest : List Char) : Bite := ⟨[⟨kind, start, stop⟩], stop, rest⟩

/-- A number, and the cross behind it when a digit follows that. -/
def biteNumber (start : Nat) (negative : Bool) (cs : List Char) : Except SyntaxError Bite :=
  let digits := cs.takeWhile Char.isDigit
  let rest := cs.dropWhile Char.isDigit
  let stop := start + digits.length + (if negative then 1 else 0)
  match numberValue negative digits with
  | .error complaint => .error ⟨start, complaint⟩
  | .ok value =>
    let number : Token := ⟨.number value, start, stop⟩
    match rest with
    | c :: d :: behind =>
      if (c == 'x' || c == 'X') && d.isDigit then
        .ok ⟨[number, ⟨.cross, stop, stop + 1⟩], stop + 1, d :: behind⟩
      else .ok ⟨[number], stop, rest⟩
    | _ => .ok ⟨[number], stop, rest⟩

def isDigitAhead : List Char → Bool
  | d :: _ => d.isDigit
  | [] => false

/-- The tokens of one character. -/
def punctuation? (c : Char) : Option Kind :=
  if c == ',' then some .comma
  else if c == '(' then some .openParen
  else if c == ')' then some .closeParen
  else if c == '=' then some .equals
  else none

/-- A quoted literal whose opening quote stands at `start`. -/
def biteLiteral (start : Nat) (cs : List Char) : Except SyntaxError Bite :=
  match literalBody [] (start + 1) cs with
  | some (content, stop, rest) => .ok (.one (.str content) start stop rest)
  | none => .error ⟨start, .unterminatedString⟩

/-- A literal, a name or a punctuation mark that starts with `c`. -/
def biteText (start : Nat) (c : Char) (cs : List Char) : Except SyntaxError Bite :=
  if c == '"' then biteLiteral start cs
  else if startsName c then
    let name := c :: cs.takeWhile continuesName
    .ok (.one (.ident (String.ofList name)) start (start + name.length) (cs.dropWhile continuesName))
  else
    match punctuation? c with
    | some kind => .ok (.one kind start (start + 1) cs)
    | none => .error ⟨start, .unexpectedCharacter c⟩

/-- The bite at the front of a text that starts with `c`. -/
def bite (start : Nat) (c : Char) (cs : List Char) : Except SyntaxError Bite :=
  if isBlank c then .ok ⟨[], start + 1, cs⟩
  else if c == '/' && cs.head? == some '/' then
    .ok ⟨[], start + 1 + byteLength (cs.takeWhile (· != '\n')), cs.dropWhile (· != '\n')⟩
  else if c == '|' && cs.head? == some '>' then .ok (.one .pipe start (start + 2) cs.tail)
  else if c.isDigit then biteNumber start false (c :: cs)
  else if c == '-' && isDigitAhead cs then biteNumber start true cs
  else biteText start c cs

theorem length_dropWhile_le {α : Type} (p : α → Bool) (xs : List α) : (xs.dropWhile p).length ≤ xs.length := by
  induction xs with
  | nil => exact Nat.le_refl 0
  | cons x xs ih =>
    rw [List.dropWhile_cons]
    split
    · exact Nat.le_succ_of_le ih
    · exact Nat.le_refl _

theorem literalBody_length {read : List Char} {offset stop : Nat} {cs rest : List Char} {content : String}
    (h : literalBody read offset cs = some (content, stop, rest)) : rest.length < cs.length := by
  fun_induction literalBody read offset cs with
  | case1 => simp at h
  | case2 => simp only [Option.some.injEq, Prod.mk.injEq] at h; simp [h.2.2]
  | case3 => simp at h
  | case4 _ _ _ _ _ _ _ ih => have := ih h; simp only [List.length_cons]; omega
  | case5 _ _ _ _ _ _ ih => have := ih h; simp only [List.length_cons]; omega

theorem biteNumber_length {start : Nat} {negative : Bool} {cs : List Char} {b : Bite}
    (h : biteNumber start negative cs = .ok b) : b.rest.length ≤ (cs.dropWhile Char.isDigit).length := by
  unfold biteNumber at h
  simp only at h
  split at h
  · simp at h
  · split at h
    · rename_i heq
      split at h
      · simp only [Except.ok.injEq] at h; subst h; rw [heq]; simp
      · simp only [Except.ok.injEq] at h; subst h; exact Nat.le_refl _
    · simp only [Except.ok.injEq] at h; subst h; exact Nat.le_refl _

theorem biteLiteral_length {start : Nat} {cs : List Char} {b : Bite} (h : biteLiteral start cs = .ok b) :
    b.rest.length ≤ cs.length := by
  unfold biteLiteral at h
  split at h
  · have := literalBody_length ‹_›
    cases h
    exact Nat.le_of_lt this
  · cases h

theorem biteText_length {start : Nat} {c : Char} {cs : List Char} {b : Bite} (h : biteText start c cs = .ok b) :
    b.rest.length ≤ cs.length := by
  unfold biteText at h
  split at h
  · exact biteLiteral_length h
  · split at h
    · cases h; exact length_dropWhile_le _ _
    · split at h
      · cases h; exact Nat.le_refl _
      · cases h

theorem bite_length {start : Nat} {c : Char} {cs : List Char} {b : Bite} (h : bite start c cs = .ok b) :
    b.rest.length ≤ cs.length := by
  have digits := length_dropWhile_le Char.isDigit cs
  unfold bite at h
  iterate 3
    split at h
    · cases h; first | exact Nat.le_refl _ | exact length_dropWhile_le _ _ | simp [Bite.one]
  split at h
  · have := biteNumber_length h
    simp_all only [List.dropWhile_cons, ite_true]
    omega
  split at h
  · have := biteNumber_length h
    omega
  · exact biteText_length h

/-- The tokens of a text from `offset` on, behind those already read. -/
def lexFrom (read : Array Token) (offset : Nat) : List Char → Except SyntaxError (Array Token)
  | [] => .ok read
  | c :: cs =>
    match h : bite offset c cs with
    | .error e => .error e
    | .ok b =>
      have := bite_length h
      lexFrom (read ++ b.tokens) b.offset b.rest
termination_by cs => cs.length
decreasing_by simp only [List.length_cons]; omega

/-- The tokens of a text, the closing `finish` left out. -/
def lex (text : String) : Except SyntaxError (List Token) := do
  let tokens ← lexFrom #[] 0 text.toList
  pure tokens.toList

/-- The token behind the last one. -/
def finishOf (text : String) : Token := ⟨.finish, text.utf8ByteSize, text.utf8ByteSize⟩

end TextureLoom.Source
