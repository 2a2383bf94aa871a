set_option autoImplicit false

namespace TextureLoom.Text

/-- The digits, widened on the left with zeros to at least `width`. -/
def zeroPadded (width : Nat) (digits : List Char) : String :=
  String.ofList (List.replicate (width - digits.length) '0' ++ digits)

/-- At least `width` decimal digits. -/
def decimal (width value : Nat) : String := zeroPadded width (Nat.toDigits 10 value)

/-- At least `width` binary digits. -/
def binary (width value : Nat) : String := zeroPadded width (Nat.toDigits 2 value)

/-- At least `width` hexadecimal digits, letters in lower case. -/
def hex (width value : Nat) : String := zeroPadded width (Nat.toDigits 16 value)

/-- At least `width` hexadecimal digits, letters in upper case. -/
def hexUpper (width value : Nat) : String :=
  zeroPadded width ((Nat.toDigits 16 value).map Char.toUpper)

/-- The value of a run of decimal digits. -/
def digitsValue (digits : List Char) : Nat := digits.foldl (fun value c => value * 10 + (c.toNat - 48)) 0

/-- The value of a hexadecimal digit of either case. -/
def hexValue? (c : Char) : Option Nat :=
  if '0' ≤ c && c ≤ '9' then some (c.toNat - 48)
  else if 'a' ≤ c && c ≤ 'f' then some (c.toNat - 87)
  else if 'A' ≤ c && c ≤ 'F' then some (c.toNat - 55)
  else none

/-- A quotient rounded to the nearest integer, halves to the even neighbour. -/
def roundedQuotient (numerator denominator : Nat) : Nat :=
  let whole := numerator / denominator
  let twice := 2 * (numerator % denominator)
  if denominator < twice || (twice == denominator && whole % 2 == 1) then whole + 1 else whole

/-- A fraction written with two decimal places. -/
def hundredths (numerator denominator : Nat) : String :=
  let value := roundedQuotient (100 * numerator) denominator
  decimal 1 (value / 100) ++ "." ++ decimal 2 (value % 100)

end TextureLoom.Text
