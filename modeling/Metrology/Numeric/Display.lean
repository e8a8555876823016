import Metrology.Text.Decimal
import Metrology.Text.Utf8
import Metrology.Numeric.Rounding

/-!
# The text of a double

Two forms are written. The general form (`Display.general`) has six significant digits without
trailing zeros; it is positional for decimal exponents from -4 to 5 and scientific otherwise, with
at least two exponent digits: `9.81`, `1e+06`, `1.60218e-19`. The fixed form (`Display.fixed`) has a
given number of digits after the point. Both round the exact value of the double, a tie to the even
digit.
-/

set_option autoImplicit false
set_option relaxedAutoImplicit false

namespace Metrology.Display

/-- The exponent of the largest power of ten that is at most a ratio of positive numbers. -/
def decimalExponent (numerator denominator : Nat) : Int :=
  if denominator ≤ numerator then (Decimal.digits (numerator / denominator)).length - 1
  else -((Decimal.digits ((denominator - 1) / numerator)).length : Int)

/-- A positive ratio rounded to `places` significant digits: the digits as one number, and the
exponent of the first of them. -/
def scientific (places numerator denominator : Nat) : Nat × Int :=
  let exponent := decimalExponent numerator denominator
  let digits := divideScaled 10 numerator denominator (exponent - (places - 1 : Nat))
  if digits = Nat.pow 10 places then (Nat.pow 10 (places - 1), exponent + 1)
  else (digits, exponent)

/-- The text of digits. -/
def digitText (digits : List Nat) : Text :=
  digits.map Decimal.character

/-- Digits without the zeros at their end. -/
def stripZeros (digits : List Nat) : List Nat :=
  (digits.reverse.dropWhile (· == 0)).reverse

/-- A whole part and the digits after the point. Without such digits there is no point. -/
def pointed (whole fraction : List Nat) : Text :=
  if fraction = [] then digitText whole else digitText whole ++ utf8 "." ++ digitText fraction

/-- An exponent has a sign and at least two digits. -/
def exponentText (exponent : Int) : Text :=
  let digits := Decimal.ofNat exponent.natAbs
  (if exponent < 0 then utf8 "e-" else utf8 "e+") ++
    (if digits.length < 2 then utf8 "0" ++ digits else digits)

/-- The text of significant digits whose first one has a decimal exponent, for a general form of
`places` digits. -/
def generalDigits (places : Nat) (digits : List Nat) (exponent : Int) : Text :=
  if exponent < -4 ∨ places ≤ exponent then
    pointed (digits.take 1) (stripZeros (digits.drop 1)) ++ exponentText exponent
  else if exponent < 0 then
    pointed [0] (List.replicate (exponent.natAbs - 1) 0 ++ stripZeros digits)
  else
    pointed (digits.take (exponent.toNat + 1)) (stripZeros (digits.drop (exponent.toNat + 1)))

/-- The sign of a negative number. -/
def signText (negative : Bool) : Text :=
  if negative then utf8 "-" else []

/-- The text of an infinity or a NaN; the sign of a NaN is not written. -/
def nonFinite (number : Float) : Text :=
  if number.isNaN then utf8 "nan" else signText (number < 0.0) ++ utf8 "inf"

/-- The number of significant digits of the general form. -/
def significantDigits : Nat := 6

/-- The general form of a double. -/
def general (number : Float) : Text :=
  match Binary64.ratio? number with
  | none => nonFinite number
  | some (negative, 0, _) => signText negative ++ utf8 "0"
  | some (negative, numerator, denominator) =>
    let (digits, exponent) := scientific significantDigits numerator denominator
    signText negative ++ generalDigits significantDigits (Decimal.digits digits) exponent

/-- No double has more digits after the point. -/
def exactPlaces : Nat := 1074

/-- The digits of a double in fixed form: those before and those after the point. -/
def fixedDigits (places numerator denominator : Nat) : List Nat × List Nat :=
  let exact := min places exactPlaces
  let digits := Decimal.digits (divideToEven (numerator * Nat.pow 10 exact) denominator)
  let padded := List.replicate (exact + 1 - digits.length) 0 ++ digits
  (padded.take (padded.length - exact),
    padded.drop (padded.length - exact) ++ List.replicate (places - exact) 0)

/-- The fixed form of a double. A negative number of places stands for six. -/
def fixed (places : Int) (number : Float) : Text :=
  match Binary64.ratio? number with
  | none => nonFinite number
  | some (negative, numerator, denominator) =>
    let places := if places < 0 then 6 else places.toNat
    let (whole, fraction) := fixedDigits places numerator denominator
    signText negative ++ pointed whole fraction

end Metrology.Display
