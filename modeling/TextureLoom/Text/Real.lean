import TextureLoom.Text.Numeral

set_option autoImplicit false

/-!
Binary floating-point numbers as text: `ofText?` reads one, correctly rounded, and `Real.text` writes the fewest
digits that read back.
-/

namespace TextureLoom.Text.Real

/-- `mantissa` times ten to the power `exponent`, rounded. -/
def scaled (mantissa : Nat) (exponent : Int) : Float :=
  let magnitude := exponent + (Nat.toDigits 10 mantissa).length
  if mantissa = 0 || magnitude < -400 then 0
  else if 400 < magnitude then 1 / 0
  else Float.ofScientific mantissa (decide (exponent < 0)) exponent.natAbs

/-- The exponent behind a mantissa: nothing, or a marked whole number. -/
def exponent? : List Char → Option Int
  | [] => some 0
  | mark :: rest =>
    if mark == 'e' || mark == 'E' then
      let (negative, digits) := match rest with
        | '-' :: digits => (true, digits)
        | '+' :: digits => (false, digits)
        | digits => (false, digits)
      if digits.isEmpty || !digits.all Char.isDigit then none
      else if negative then some (-(digitsValue digits : Int))
      else some (digitsValue digits)
    else none

/-- A number without a sign. -/
def unsigned? (cs : List Char) : Option Float :=
  let whole := cs.takeWhile Char.isDigit
  let behind := cs.dropWhile Char.isDigit
  let (fraction, behind) := match behind with
    | '.' :: rest => (rest.takeWhile Char.isDigit, rest.dropWhile Char.isDigit)
    | rest => ([], rest)
  if whole.isEmpty && fraction.isEmpty then
    match String.ofList (cs.map Char.toLower) with
    | "inf" | "infinity" => some (1 / 0)
    | "nan" => some (0 / 0)
    | _ => none
  else (exponent? behind).map fun e => scaled (digitsValue (whole ++ fraction)) (e - fraction.length)

/-- The number that a text writes. -/
def ofText? (text : String) : Option Float :=
  match text.toList with
  | '-' :: rest => (unsigned? rest).map (- ·)
  | '+' :: rest => unsigned? rest
  | rest => unsigned? rest

/-- A positive binary fraction `significand * 2 ^ exponent`; `atPower` says that the next value below is half as far
away as the one above. -/
structure Binary where
  significand : Nat
  exponent : Int
  atPower : Bool

/-- The parts of a positive finite number. -/
def Binary.of (x : Float) : Binary :=
  let bits := x.toBits.toNat
  let field : Nat := bits / 0x10000000000000 % 0x800
  let fraction : Nat := bits % 0x10000000000000
  if field = 0 then ⟨fraction, -1074, false⟩
  else ⟨0x10000000000000 + fraction, (field : Int) - 1075, decide (fraction = 0 ∧ 1 < field)⟩

/-- A power of a base as a quotient of whole numbers. -/
def power (base : Nat) (exponent : Int) : Nat × Nat :=
  if exponent < 0 then (1, base.pow exponent.natAbs) else (base.pow exponent.natAbs, 1)

/-- Whether `candidate * 10 ^ scale` reads back as `b`: it lies between the midpoints to the neighbours, which belong
to an even significand. -/
def Binary.accepts (b : Binary) (candidate : Nat) (scale : Int) : Bool :=
  let (unit, unitBelow) := power 2 (b.exponent - 2)
  let (ten, tenBelow) := power 10 scale
  let value := candidate * ten * unitBelow
  let low := (4 * b.significand - (if b.atPower then 1 else 2)) * unit * tenBelow
  let high := (4 * b.significand + 2) * unit * tenBelow
  if b.significand % 2 = 0 then low ≤ value && value ≤ high else low < value && value < high

/-- The quotient of `b` by `10 ^ scale` as a fraction. -/
def Binary.quotient (b : Binary) (scale : Int) : Nat × Nat :=
  let (unit, unitBelow) := power 2 b.exponent
  let (ten, tenBelow) := power 10 scale
  (b.significand * unit * tenBelow, unitBelow * ten)

/-- The exponent of the leading decimal digit, from a bound on it downward. -/
def Binary.leading (b : Binary) : Nat → Int → Int
  | 0, guess => guess
  | turns + 1, guess =>
    let (numerator, denominator) := b.quotient guess
    if denominator ≤ numerator then guess else b.leading turns (guess - 1)

/-- The shortest decimal `digits * 10 ^ scale` that reads back, from grids of `count` digits on; the nearer one of two,
and the upper one if both are equally near. -/
def Binary.shortest (b : Binary) (leading : Int) : Nat → Nat → Nat × Int
  | 0, _ => (b.significand, 0)
  | turns + 1, count =>
    let scale := leading - count + 1
    let (numerator, denominator) := b.quotient scale
    let below := numerator / denominator
    let nearerAbove := decide (denominator ≤ 2 * (numerator % denominator))
    let first := if nearerAbove then below + 1 else below
    let second := if nearerAbove then below else below + 1
    if b.accepts first scale then (first, scale)
    else if b.accepts second scale then (second, scale)
    else b.shortest leading turns (count + 1)

/-- Digits of a positive finite number without trailing zeros, and the exponent of the first of them. -/
def decimalDigits (x : Float) : List Char × Int :=
  let b := Binary.of x
  let (value, scale) := b.shortest (b.leading 700 309) 20 1
  let digits := Nat.toDigits 10 value
  ((digits.reverse.dropWhile (· == '0')).reverse, scale + digits.length - 1)

/-- Digits with a point behind the one of exponent zero, at least one digit on either side of it. -/
def positional (digits : List Char) (leading : Int) : String :=
  if leading < 0 then
    String.ofList ('0' :: '.' :: List.replicate (leading.natAbs - 1) '0' ++ digits)
  else
    let count := leading.toNat + 1
    let whole := digits.take count ++ List.replicate (count - digits.length) '0'
    let fraction := if digits.length ≤ count then ['0'] else digits.drop count
    String.ofList (whole ++ '.' :: fraction)

/-- Digits with a point behind the first and an exponent. -/
def scientific (digits : List Char) (leading : Int) : String :=
  let mantissa := match digits with
    | [] => []
    | [d] => [d]
    | d :: rest => d :: '.' :: rest
  String.ofList mantissa ++ "e" ++ toString leading

/-- The fewest digits that read back; positional from a ten-thousandth up to ten to the sixteenth. -/
def text (x : Float) : String :=
  if x.isNaN then "NaN"
  else
    let sign := if x.toBits.toNat < 0x8000000000000000 then "" else "-"
    let magnitude := x.abs
    if magnitude.isInf then sign ++ "inf"
    else if magnitude == 0 then sign ++ "0.0"
    else
      let (digits, leading) := decimalDigits magnitude
      sign ++ (if -4 ≤ leading ∧ leading < 16 then positional digits leading else scientific digits leading)

end TextureLoom.Text.Real
