import Mathlib.Data.String.Basic
import TextureLoom.Source.Lexer

set_option autoImplicit false

namespace TextureLoom.Source

open String (utf8Len)

theorem byteLength_eq (cs : List Char) : byteLength cs = utf8Len cs := by
  have sum (count : Nat) : cs.foldl (fun count c => count + c.utf8Size) count = count + utf8Len cs := by
    induction cs generalizing count with
    | nil => rfl
    | cons c cs ih =>
      rw [List.foldl_cons, ih, String.utf8Len_cons]
      omega
  rw [byteLength, sum, Nat.zero_add]

/-! ### Characters of one byte -/

theorem utf8Size_of_isBlank {c : Char} (blank : isBlank c) : c.utf8Size = 1 := by
  simp only [isBlank, Bool.or_eq_true, beq_iff_eq] at blank
  rcases blank with (((rfl | rfl) | rfl) | rfl) | rfl <;> rfl

theorem toNat_of_isDigit {c : Char} (digit : c.isDigit) : 48 ≤ c.val.toNat ∧ c.val.toNat ≤ 57 := by
  have within : (decide (c.val ≥ '0'.val) && decide (c.val ≤ '9'.val)) = true := digit
  simpa [UInt32.le_iff_toNat_le] using within

theorem toNat_of_isAlpha {c : Char} (alpha : c.isAlpha) : 65 ≤ c.val.toNat ∧ c.val.toNat ≤ 122 := by
  have either : (c.isUpper || c.isLower) = true := alpha
  rcases Bool.or_eq_true_iff.mp either with upper | lower
  · have within : decide (c.val ≥ 'A'.val ∧ c.val ≤ 'Z'.val) = true := upper
    have bounds : 65 ≤ c.val.toNat ∧ c.val.toNat ≤ 90 := by simpa [UInt32.le_iff_toNat_le] using within
    omega
  · have within : (decide (c.val ≥ 'a'.val) && decide (c.val ≤ 'z'.val)) = true := lower
    have bounds : 97 ≤ c.val.toNat ∧ c.val.toNat ≤ 122 := by simpa [UInt32.le_iff_toNat_le] using within
    omega

theorem utf8Size_of_isAlphanum {c : Char} (alphanum : c.isAlphanum) : c.utf8Size = 1 := by
  have either : (c.isAlpha || c.isDigit) = true := alphanum
  have small : c.val.toNat ≤ 127 := by
    rcases Bool.or_eq_true_iff.mp either with alpha | digit
    · have := toNat_of_isAlpha alpha
      omega
    · have := toNat_of_isDigit digit
      omega
  rw [Char.utf8Size, if_pos (UInt32.le_iff_toNat_le.mpr small)]

theorem utf8Size_of_isDigit {c : Char} (digit : c.isDigit) : c.utf8Size = 1 :=
  utf8Size_of_isAlphanum (by rw [Char.isAlphanum, digit, Bool.or_true])

theorem utf8Size_of_continuesName {c : Char} (continues : continuesName c) : c.utf8Size = 1 := by
  simp only [continuesName, Bool.or_eq_true, beq_iff_eq] at continues
  rcases continues with (((alphanum | rfl) | rfl) | rfl) | rfl
  · exact utf8Size_of_isAlphanum alphanum
  all_goals rfl

theorem continuesName_of_startsName {c : Char} (starts : startsName c) : continuesName c := by
  simp only [startsName, continuesName, Char.isAlphanum, Bool.or_eq_true] at starts ⊢
  rcases starts with (alpha | line) | hash
  · exact .inl (.inl (.inl (.inl (.inl alpha))))
  · exact .inl (.inl (.inl (.inr line)))
  · exact .inr hash

theorem utf8Len_eq_length {cs : List Char} (each : ∀ c ∈ cs, c.utf8Size = 1) : utf8Len cs = cs.length := by
  induction cs with
  | nil => rfl
  | cons c cs ih =>
    rw [String.utf8Len_cons, ih fun d member => each d (List.mem_cons_of_mem c member), each c List.mem_cons_self,
      List.length_cons]

/-! ### What the lexer does at each kind of character -/

/-- A character of a class is none of those outside it. -/
theorem beq_eq_false_of_class {isIn : Char → Bool} {c d : Char} (holds : isIn c) (fails : isIn d = false) :
    (c == d) = false := by
  refine beq_eq_false_iff_ne.mpr fun same => ?_
  rw [same, fails] at holds
  cases holds

theorem isBlank_eq_false {isIn : Char → Bool} {c : Char} (holds : isIn c)
    (fails : [' ', '\t', '\n', '\x0c', '\r'].all (isIn · == false)) : isBlank c = false := by
  simp only [List.all_cons, List.all_nil, Bool.and_true, Bool.and_eq_true, beq_iff_eq] at fails
  obtain ⟨space, tab, line, page, carriage⟩ := fails
  simp only [isBlank, beq_eq_false_of_class holds space, beq_eq_false_of_class holds tab,
    beq_eq_false_of_class holds line, beq_eq_false_of_class holds page, beq_eq_false_of_class holds carriage,
    Bool.or_self]

section

variable {c : Char} {cs : List Char} {offset : Nat}

theorem bite_of_isDigit (digit : c.isDigit) : bite offset c cs = biteNumber offset false (c :: cs) := by
  have noBlank : isBlank c = false := isBlank_eq_false digit (by decide)
  have noSlash : (c == '/') = false := beq_eq_false_of_class digit (by decide)
  have noBar : (c == '|') = false := beq_eq_false_of_class digit (by decide)
  simp only [bite, noBlank, noSlash, noBar, digit, Bool.false_and, Bool.false_eq_true, ↓reduceIte]

theorem isDigit_eq_false_of_startsName (starts : startsName c) : c.isDigit = false := by
  simp only [startsName, Bool.or_eq_true, beq_iff_eq] at starts
  rcases starts with (alpha | rfl) | rfl
  · apply eq_false_of_ne_true
    intro digit
    have := toNat_of_isAlpha alpha
    have := toNat_of_isDigit digit
    omega
  · rfl
  · rfl

theorem bite_of_startsName (starts : startsName c) :
    bite offset c cs = .ok (.one (.ident (String.ofList (c :: cs.takeWhile continuesName))) offset
      (offset + (c :: cs.takeWhile continuesName).length) (cs.dropWhile continuesName)) := by
  have noBlank : isBlank c = false := isBlank_eq_false starts (by decide)
  have noSlash : (c == '/') = false := beq_eq_false_of_class starts (by decide)
  have noBar : (c == '|') = false := beq_eq_false_of_class starts (by decide)
  have noSign : (c == '-') = false := beq_eq_false_of_class starts (by decide)
  have noQuote : (c == '"') = false := beq_eq_false_of_class starts (by decide)
  simp only [bite, biteText, noBlank, noSlash, noBar, noSign, noQuote, isDigit_eq_false_of_startsName starts, starts,
    Bool.false_and, Bool.false_eq_true, ↓reduceIte]

theorem mem_punctuation {kind : Kind} (found : punctuation? c = some kind) :
    (c, kind) ∈ [(',', Kind.comma), ('(', .openParen), (')', .closeParen), ('=', .equals)] := by
  unfold punctuation? at found
  grind

theorem bite_of_punctuation (offset : Nat) (cs : List Char) {kind : Kind} (found : punctuation? c = some kind) :
    bite offset c cs = .ok (.one kind offset (offset + 1) cs) ∧ c.utf8Size = 1 ∧ kind ≠ .cross := by
  have listed := mem_punctuation found
  simp only [List.mem_cons, Prod.mk.injEq, List.not_mem_nil, or_false] at listed
  rcases listed with ⟨rfl, rfl⟩ | ⟨rfl, rfl⟩ | ⟨rfl, rfl⟩ | ⟨rfl, rfl⟩
  all_goals exact ⟨rfl, rfl, by decide⟩

end

/-! ### Words -/

/-- Nothing or a space comes next. -/
def Parted (rest : List Char) : Prop := ∀ c, rest.head? = some c → c = ' '

theorem Parted.takeWhile_append {isIn : Char → Bool} {cs rest : List Char} (parted : Parted rest)
    (each : ∀ c ∈ cs, isIn c) (noSpace : isIn ' ' = false) :
    (cs ++ rest).takeWhile isIn = cs ∧ (cs ++ rest).dropWhile isIn = rest := by
  rw [List.takeWhile_append_of_pos each, List.dropWhile_append_of_pos each]
  cases rest with
  | nil => exact ⟨List.append_nil cs, rfl⟩
  | cons c tail =>
    obtain rfl := parted c rfl
    simp only [List.takeWhile_cons, List.dropWhile_cons, noSpace, Bool.false_eq_true, ↓reduceIte, List.append_nil,
      and_self]

/-- Wherever these characters stand with nothing or a space behind them, the lexer makes one token of them. -/
def IsWord (kind : Kind) (word : List Char) : Prop :=
  ∃ c cs, word = c :: cs ∧ ∀ offset rest, Parted rest →
    bite offset c (cs ++ rest) = .ok (.one kind offset (offset + utf8Len word) rest)

theorem parted_nil : Parted [] := by
  intro c head
  cases head

theorem isWord_arrow : IsWord .pipe ['|', '>'] := ⟨'|', ['>'], rfl, fun _ _ _ => rfl⟩

theorem isWord_punctuation {c : Char} {kind : Kind} (found : punctuation? c = some kind) : IsWord kind [c] := by
  refine ⟨c, [], rfl, fun offset rest _ => ?_⟩
  obtain ⟨bitten, size, _⟩ := bite_of_punctuation offset ([] ++ rest) found
  rw [bitten, String.utf8Len_cons, String.utf8Len_nil, size]
  rfl

theorem utf8Len_name {c : Char} {cs : List Char} (starts : startsName c) (continues : ∀ d ∈ cs, continuesName d) :
    utf8Len (c :: cs) = (c :: cs).length := by
  apply utf8Len_eq_length
  intro d member
  rcases List.mem_cons.mp member with rfl | later
  · exact utf8Size_of_continuesName (continuesName_of_startsName starts)
  · exact utf8Size_of_continuesName (continues d later)

theorem isWord_name {c : Char} {cs : List Char} (starts : startsName c) (continues : ∀ d ∈ cs, continuesName d) :
    IsWord (.ident (String.ofList (c :: cs))) (c :: cs) := by
  refine ⟨c, cs, rfl, fun offset rest parted => ?_⟩
  obtain ⟨taken, dropped⟩ := parted.takeWhile_append continues (by decide)
  rw [bite_of_startsName starts, taken, dropped, utf8Len_name starts continues]

/-- The characters of a number. -/
def signed (negative : Bool) (digits : List Char) : List Char := if negative then '-' :: digits else digits

theorem utf8Len_signed {negative : Bool} {digits : List Char} (each : ∀ c ∈ digits, c.isDigit) :
    utf8Len (signed negative digits) = digits.length + if negative then 1 else 0 := by
  have size : utf8Len digits = digits.length := utf8Len_eq_length fun c member => utf8Size_of_isDigit (each c member)
  cases negative with
  | false => exact size
  | true => exact congrArg (· + 1) size

theorem biteNumber_of_parted {negative : Bool} {digits rest : List Char} {value : Int} {offset : Nat}
    (each : ∀ c ∈ digits, c.isDigit) (valued : numberValue negative digits = .ok value) (parted : Parted rest) :
    biteNumber offset negative (digits ++ rest) =
      .ok (.one (.number value) offset (offset + utf8Len (signed negative digits)) rest) := by
  obtain ⟨taken, dropped⟩ := parted.takeWhile_append each (by decide)
  rw [utf8Len_signed each, ← Nat.add_assoc]
  simp only [biteNumber, taken, dropped, valued]
  split
  · obtain rfl := parted _ rfl
    rfl
  · rfl

theorem isWord_number {negative : Bool} {c : Char} {cs : List Char} {value : Int}
    (each : ∀ d ∈ c :: cs, d.isDigit) (valued : numberValue negative (c :: cs) = .ok value) :
    IsWord (.number value) (signed negative (c :: cs)) := by
  cases negative with
  | false =>
    refine ⟨c, cs, rfl, fun offset rest parted => ?_⟩
    rw [bite_of_isDigit (each c List.mem_cons_self)]
    exact biteNumber_of_parted each valued parted
  | true =>
    refine ⟨'-', c :: cs, rfl, fun offset rest parted => ?_⟩
    have digit : c.isDigit := each c List.mem_cons_self
    have signed : bite offset '-' (c :: cs ++ rest) = biteNumber offset true (c :: cs ++ rest) := by
      change (if c.isDigit then _ else _) = _
      rw [if_pos digit]
    rw [signed]
    exact biteNumber_of_parted each valued parted

section

variable {read rest : List Char} {offset : Nat}

theorem literalBody_quote :
    literalBody read offset ('"' :: rest) = some (String.ofList read.reverse, offset + 1, rest) := by
  rw [literalBody.eq_def]
  rfl

theorem literalBody_escape (e : Char) :
    literalBody read offset ('\\' :: e :: rest) = literalBody (unescape e :: read) (offset + 1 + e.utf8Size) rest := by
  rw [literalBody.eq_def]
  rfl

theorem literalBody_plain {c : Char} (noQuote : ¬(c == '"')) (noEscape : ¬(c == '\\')) :
    literalBody read offset (c :: rest) = literalBody (c :: read) (offset + c.utf8Size) rest := by
  rw [literalBody.eq_def]
  dsimp only
  rw [if_neg noQuote, if_neg noEscape]

end

/-- A literal is read up to its closing quote, wherever it stands and whatever comes behind it. -/
theorem exists_body_of_literalBody {read cs rest : List Char} {offset stop : Nat} {content : String}
    (closed : literalBody read offset cs = some (content, stop, rest)) :
    ∃ body, cs = body ++ rest ∧ ∀ start behind,
      literalBody read start (body ++ behind) = some (content, start + utf8Len body, behind) := by
  fun_induction literalBody read offset cs with
  | case1 | case3 => cases closed
  | case2 read offset c tail quote =>
    cases closed
    obtain rfl := eq_of_beq quote
    exact ⟨['"'], rfl, fun start behind => literalBody_quote⟩
  | case4 read offset c noQuote escapes e tail ih =>
    obtain ⟨body, rfl, again⟩ := ih closed
    obtain rfl := eq_of_beq escapes
    refine ⟨'\\' :: e :: body, rfl, fun start behind => ?_⟩
    have size : start + 1 + e.utf8Size + utf8Len body = start + utf8Len ('\\' :: e :: body) := by
      rw [String.utf8Len_cons, String.utf8Len_cons, show '\\'.utf8Size = 1 from rfl]
      omega
    rw [List.cons_append, List.cons_append, literalBody_escape, again, size]
  | case5 read offset c tail noQuote noEscape ih =>
    obtain ⟨body, rfl, again⟩ := ih closed
    refine ⟨c :: body, rfl, fun start behind => ?_⟩
    have size : start + c.utf8Size + utf8Len body = start + utf8Len (c :: body) := by
      rw [String.utf8Len_cons]
      omega
    rw [List.cons_append, literalBody_plain noQuote noEscape, again, size]

theorem isWord_literal {body : List Char} {content : String}
    (closes : ∀ start behind, literalBody [] start (body ++ behind) = some (content, start + utf8Len body, behind)) :
    IsWord (.str content) ('"' :: body) := by
  refine ⟨'"', body, rfl, fun offset rest _ => ?_⟩
  have bitten : bite offset '"' (body ++ rest) = biteLiteral offset (body ++ rest) := rfl
  have size : offset + 1 + utf8Len body = offset + utf8Len ('"' :: body) := by
    rw [String.utf8Len_cons, show '"'.utf8Size = 1 from rfl]
    omega
  rw [bitten, biteLiteral, closes, size]

/-! ### What a bite takes -/

/-- A bite takes what stands at an offset: a blank or a comment, the word of a token, or a number with the cross of a
size, behind which the other number of the size begins. -/
inductive Takes (offset : Nat) : List Char → Bite → Prop where
  | gap (skipped rest : List Char) : Takes offset (skipped ++ rest) ⟨[], offset + utf8Len skipped, rest⟩
  | word {kind : Kind} {word : List Char} (isWord : IsWord kind word) (noCross : kind ≠ .cross) (rest : List Char) :
    Takes offset (word ++ rest) (.one kind offset (offset + utf8Len word) rest)
  | size {value : Int} {word : List Char} {cross digit : Char} (isWord : IsWord (.number value) word)
      (isCross : cross = 'x' ∨ cross = 'X') (isDigit : digit.isDigit) (rest : List Char) :
    Takes offset (word ++ cross :: digit :: rest)
      ⟨[⟨.number value, offset, offset + utf8Len word⟩,
        ⟨.cross, offset + utf8Len word, offset + utf8Len word + 1⟩], offset + utf8Len word + 1, digit :: rest⟩

theorem takes_of_biteNumber {offset : Nat} {negative : Bool} {c : Char} {cs : List Char} {b : Bite}
    (digit : c.isDigit) (bitten : biteNumber offset negative (c :: cs) = .ok b) :
    Takes offset (signed negative (c :: cs)) b := by
  obtain ⟨digits, isDigits⟩ : ∃ digits, digits = cs.takeWhile Char.isDigit := ⟨_, rfl⟩
  obtain ⟨rest, isRest⟩ : ∃ rest, rest = cs.dropWhile Char.isDigit := ⟨_, rfl⟩
  have each : ∀ d ∈ c :: digits, d.isDigit := by
    intro d member
    rcases List.mem_cons.mp member with rfl | later
    · exact digit
    · rw [isDigits] at later
      exact List.all_eq_true.mp List.all_takeWhile d later
  have split : signed negative (c :: cs) = signed negative (c :: digits) ++ rest := by
    rw [isDigits, isRest]
    cases negative <;> simp [signed]
  have stop : offset + (c :: digits).length + (if negative then 1 else 0) =
      offset + utf8Len (signed negative (c :: digits)) := by rw [utf8Len_signed each, Nat.add_assoc]
  unfold biteNumber at bitten
  simp only [List.takeWhile_cons, List.dropWhile_cons, digit, ↓reduceIte, ← isDigits, ← isRest, stop] at bitten
  rw [split]
  cases valued : numberValue negative (c :: digits) with
  | error complaint =>
    rw [valued] at bitten
    cases bitten
  | ok value =>
    rw [valued] at bitten
    have isWord := isWord_number each valued
    dsimp only at bitten
    split at bitten
    · rename_i cross second behind
      split at bitten
      · rename_i crosses
        simp only [Bool.and_eq_true, Bool.or_eq_true, beq_iff_eq] at crosses
        cases bitten
        exact .size isWord crosses.1 crosses.2 behind
      · cases bitten
        exact .word isWord (by simp) _
    · cases bitten
      exact .word isWord (by simp) _

theorem takes_of_biteLiteral {offset : Nat} {cs : List Char} {b : Bite} (bitten : biteLiteral offset cs = .ok b) :
    Takes offset ('"' :: cs) b := by
  unfold biteLiteral at bitten
  split at bitten
  · rename_i content stop rest closed
    cases bitten
    obtain ⟨body, rfl, again⟩ := exists_body_of_literalBody closed
    have ends := again (offset + 1) rest
    rw [closed, Option.some.injEq, Prod.mk.injEq, Prod.mk.injEq] at ends
    have size : stop = offset + utf8Len ('"' :: body) := by
      rw [ends.2.1, String.utf8Len_cons, show '"'.utf8Size = 1 from rfl]
      omega
    rw [size]
    exact .word (isWord_literal again) (by simp) rest
  · cases bitten

theorem takes_of_biteText {offset : Nat} {c : Char} {cs : List Char} {b : Bite}
    (bitten : biteText offset c cs = .ok b) : Takes offset (c :: cs) b := by
  unfold biteText at bitten
  split at bitten
  · rename_i quote
    obtain rfl := eq_of_beq quote
    exact takes_of_biteLiteral bitten
  · split at bitten
    · rename_i starts
      have continues : ∀ d ∈ cs.takeWhile continuesName, continuesName d := by
        intro d member
        exact List.all_eq_true.mp List.all_takeWhile d member
      have taken : Takes offset _ _ := .word (isWord_name starts continues) (by simp) (cs.dropWhile continuesName)
      rw [utf8Len_name starts continues, List.cons_append, List.takeWhile_append_dropWhile] at taken
      cases bitten
      exact taken
    · split at bitten
      · rename_i kind found
        obtain ⟨_, size, noCross⟩ := bite_of_punctuation offset cs found
        have taken : Takes offset _ _ := .word (isWord_punctuation found) noCross cs
        rw [String.utf8Len_cons, String.utf8Len_nil, size] at taken
        cases bitten
        exact taken
      · cases bitten

theorem takes_of_bite {offset : Nat} {c : Char} {cs : List Char} {b : Bite} (bitten : bite offset c cs = .ok b) :
    Takes offset (c :: cs) b := by
  unfold bite at bitten
  split at bitten
  · rename_i blank
    cases bitten
    have taken : Takes offset _ _ := .gap [c] cs
    rw [String.utf8Len_cons, String.utf8Len_nil, utf8Size_of_isBlank blank] at taken
    exact taken
  split at bitten
  · rename_i slashes
    simp only [Bool.and_eq_true, beq_iff_eq] at slashes
    obtain ⟨rfl, _⟩ := slashes
    cases bitten
    have taken : Takes offset _ _ := .gap ('/' :: cs.takeWhile (· != '\n')) (cs.dropWhile (· != '\n'))
    rw [List.cons_append, List.takeWhile_append_dropWhile, String.utf8Len_cons, ← byteLength_eq,
      show '/'.utf8Size = 1 from rfl, Nat.add_comm (byteLength _), ← Nat.add_assoc] at taken
    exact taken
  split at bitten
  · rename_i arrow
    simp only [Bool.and_eq_true, beq_iff_eq] at arrow
    obtain ⟨rfl, head⟩ := arrow
    obtain ⟨tail, rfl⟩ := List.head?_eq_some_iff.mp head
    cases bitten
    exact .word isWord_arrow (by simp) tail
  split at bitten
  · rename_i digit
    have taken : Takes offset (signed false (c :: cs)) b := takes_of_biteNumber digit bitten
    exact taken
  split at bitten
  · rename_i sign
    simp only [Bool.and_eq_true, beq_iff_eq] at sign
    obtain ⟨rfl, ahead⟩ := sign
    cases cs with
    | nil => cases ahead
    | cons d tail =>
      have taken : Takes offset (signed true (d :: tail)) b := takes_of_biteNumber ahead bitten
      exact taken
  · exact takes_of_biteText bitten

/-! ### What the lexer takes -/

/-- The characters at an offset are the words of the tokens in order, with what the lexer passes over between them. -/
inductive Lexes : Nat → List Char → List Token → Prop where
  | finish {offset : Nat} : Lexes offset [] []
  | gap {offset : Nat} {rest : List Char} {tokens : List Token} (skipped : List Char) :
    Lexes (offset + utf8Len skipped) rest tokens → Lexes offset (skipped ++ rest) tokens
  | word {offset : Nat} {kind : Kind} {word rest : List Char} {tokens : List Token} :
    IsWord kind word → kind ≠ .cross → Lexes (offset + utf8Len word) rest tokens →
    Lexes offset (word ++ rest) (⟨kind, offset, offset + utf8Len word⟩ :: tokens)
  | size {offset : Nat} {width height : Int} {word rest : List Char} {cross : Char} {start stop : Nat}
      {tokens : List Token} :
    IsWord (.number width) word → cross = 'x' ∨ cross = 'X' →
    Lexes (offset + utf8Len word + 1) rest (⟨.number height, start, stop⟩ :: tokens) →
    Lexes offset (word ++ cross :: rest)
      (⟨.number width, offset, offset + utf8Len word⟩ ::
        ⟨.cross, offset + utf8Len word, offset + utf8Len word + 1⟩ :: ⟨.number height, start, stop⟩ :: tokens)

theorem lexFrom_cons {read : Array Token} {offset : Nat} {c : Char} {cs : List Char} {b : Bite}
    (bitten : bite offset c cs = .ok b) :
    lexFrom read offset (c :: cs) = lexFrom (read ++ b.tokens) b.offset b.rest := by
  rw [lexFrom]
  split
  · rename_i e failed
    cases bitten.symm.trans failed
  · rename_i other eaten
    cases bitten.symm.trans eaten
    rfl

theorem tokens_of_biteNumber {offset : Nat} {negative : Bool} {cs : List Char} {b : Bite}
    (bitten : biteNumber offset negative cs = .ok b) :
    ∃ value stop others, b.tokens = ⟨.number value, offset, stop⟩ :: others := by
  unfold biteNumber at bitten
  dsimp only at bitten
  split at bitten
  · cases bitten
  · split at bitten
    · split at bitten
      · cases bitten
        exact ⟨_, _, _, rfl⟩
      · cases bitten
        exact ⟨_, _, _, rfl⟩
    · cases bitten
      exact ⟨_, _, _, rfl⟩

/-- The lexer goes through the characters, and where it comes to a digit the next token is a number. -/
theorem lexes_of_lexFrom {read tokens : Array Token} {offset : Nat} {cs : List Char}
    (lexed : lexFrom read offset cs = .ok tokens) :
    ∃ more, tokens.toList = read.toList ++ more ∧ Lexes offset cs more ∧
      (isDigitAhead cs → ∃ value start stop others, more = ⟨.number value, start, stop⟩ :: others) := by
  fun_induction lexFrom read offset cs with
  | case1 read offset =>
    cases lexed
    exact ⟨[], (List.append_nil _).symm, .finish, fun ahead => nomatch ahead⟩
  | case2 => cases lexed
  | case3 read offset c cs b bitten shorter ih =>
    obtain ⟨more, all, lexes, number⟩ := ih lexed
    rw [Array.toList_appendList, List.append_assoc] at all
    refine ⟨b.tokens ++ more, all, ?_, fun digit => ?_⟩
    · have taken := takes_of_bite bitten
      generalize c :: cs = text at taken
      cases taken with
      | gap skipped rest => exact .gap skipped lexes
      | word isWord noCross rest => exact .word isWord noCross lexes
      | size isWord isCross isDigit rest =>
        obtain ⟨height, start, stop, others, rfl⟩ := number isDigit
        exact .size isWord isCross lexes
    · have digits : bite offset c cs = biteNumber offset false (c :: cs) := bite_of_isDigit digit
      rw [digits] at bitten
      obtain ⟨value, stop, others, isFirst⟩ := tokens_of_biteNumber bitten
      rw [isFirst]
      exact ⟨value, offset, stop, others ++ more, rfl⟩

theorem lexes_of_lex {text : String} {tokens : List Token} (lexed : lex text = .ok tokens) :
    Lexes 0 text.toList tokens := by
  unfold lex at lexed
  cases isLexed : lexFrom #[] 0 text.toList with
  | error e =>
    rw [isLexed] at lexed
    cases lexed
  | ok all =>
    rw [isLexed] at lexed
    cases lexed
    obtain ⟨more, isAll, lexes, _⟩ := lexes_of_lexFrom isLexed
    rw [isAll]
    exact lexes

end TextureLoom.Source
