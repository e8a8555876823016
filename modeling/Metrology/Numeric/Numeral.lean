import Metrology.Text.Decimal
import Metrology.Numeric.Rounding

/-!
# Numerals

The written form of a number is an optional sign, digits with at most one point among them or at
either end, at least one digit in all, and an optional exponent part:
`[+-]?(D+(.D*)?|.D+)([eE][+-]?D+)?`. `Mantissa` and `Numeral` are the parsed form and `codes` writes
them back. `Mantissa.scan` and `Numeral.scan` read the longest one that a list of code points starts
with; an `e` that no digits follow is no exponent part and is left in the rest. Reading loses
nothing: the code points of what was read, followed by the rest, are the input
(`Mantissa.codes_scan` and `Numeral.codes_scan`).
-/

set_option autoImplicit false
set_option relaxedAutoImplicit false

namespace Metrology

/-! ### Signs -/

/-- A written sign. -/
inductive Sign where
  | plus
  | minus
  deriving DecidableEq, Repr

namespace Sign

/-- The character of a sign. -/
def code : Sign → Nat
  | plus => 43
  | minus => 45

/-- The sign that a list of code points may start with, and the rest. -/
def scan : List Nat → Option Sign × List Nat
  | [] => (none, [])
  | first :: rest =>
    if first = plus.code then (some plus, rest)
    else if first = minus.code then (some minus, rest)
    else (none, first :: rest)

/-- The code points of a sign that may be missing. -/
def codes (sign : Option Sign) : List Nat :=
  (sign.map code).toList

/-- A number after a sign that may be missing. -/
def apply (sign : Option Sign) (number : Nat) : Int :=
  if sign = some minus then -(number : Int) else number

theorem codes_scan (input : List Nat) : codes (scan input).1 ++ (scan input).2 = input := by
  unfold scan
  split
  · rfl
  · split
    · next h => simp [codes, h]
    · split
      · next h => simp [codes, h]
      · rfl

end Sign

/-! ### Digits -/

/-- The ASCII digits. -/
def isDigit (code : Nat) : Bool :=
  48 ≤ code && code ≤ 57

/-- The value of an ASCII digit. -/
def digitValue (code : Nat) : Nat :=
  code - 48

/-- The ASCII digit of a value. -/
def digitCode (digit : Nat) : Nat :=
  48 + digit

/-- The values of the digits that a list of code points starts with, and the rest. -/
def scanDigits (codes : List Nat) : List Nat × List Nat :=
  ((codes.takeWhile isDigit).map digitValue, codes.dropWhile isDigit)

theorem digitCode_digitValue {code : Nat} (hdigit : isDigit code) :
    digitCode (digitValue code) = code := by
  simp only [isDigit, Bool.and_eq_true, decide_eq_true_eq] at hdigit
  simp only [digitCode, digitValue]
  omega

theorem codes_scanDigits (codes : List Nat) :
    (scanDigits codes).1.map digitCode ++ (scanDigits codes).2 = codes := by
  induction codes with
  | nil => rfl
  | cons code rest ih =>
    by_cases hdigit : isDigit code
    · simpa [scanDigits, hdigit, digitCode_digitValue hdigit] using ih
    · simp [scanDigits, hdigit]

/-! ### Mantissas -/

/-- The digits of a number with their sign and point. -/
structure Mantissa where
  sign : Option Sign
  /-- The digits before the point. -/
  whole : List Nat
  /-- The digits after the point; none when there is no point. -/
  fraction : Option (List Nat)
  deriving DecidableEq, Repr

namespace Mantissa

/-- All digits, without the point. -/
def digits (mantissa : Mantissa) : List Nat :=
  mantissa.whole ++ mantissa.fraction.getD []

/-- The code points of a fraction that may be missing. -/
def fractionCodes (fraction : Option (List Nat)) : List Nat :=
  match fraction with
  | none => []
  | some digits => 46 :: digits.map digitCode

/-- The code points of a mantissa. -/
def codes (mantissa : Mantissa) : List Nat :=
  Sign.codes mantissa.sign ++ mantissa.whole.map digitCode ++ fractionCodes mantissa.fraction

/-- The point and digits that a list of code points may start with, and the rest. -/
def scanFraction : List Nat → Option (List Nat) × List Nat
  | [] => (none, [])
  | first :: rest =>
    if first = 46 then (some (scanDigits rest).1, (scanDigits rest).2) else (none, first :: rest)

/-- The mantissa that a list of code points starts with, and the rest. It may be without digits. -/
def scan (codes : List Nat) : Mantissa × List Nat :=
  let (sign, unsigned) := Sign.scan codes
  let (whole, afterWhole) := scanDigits unsigned
  let (fraction, rest) := scanFraction afterWhole
  (⟨sign, whole, fraction⟩, rest)

theorem codes_scanFraction (input : List Nat) :
    fractionCodes (scanFraction input).1 ++ (scanFraction input).2 = input := by
  unfold scanFraction
  split
  · rfl
  · split
    · next h => simp [fractionCodes, h, codes_scanDigits]
    · rfl

theorem codes_scan (input : List Nat) : (scan input).1.codes ++ (scan input).2 = input := by
  simp only [scan, codes, List.append_assoc, codes_scanFraction, codes_scanDigits, Sign.codes_scan]

end Mantissa

/-! ### Numerals -/

/-- The exponent part of a number. -/
structure ExponentPart where
  /-- The letter is `E`, not `e`. -/
  capital : Bool
  sign : Option Sign
  digits : List Nat
  deriving DecidableEq, Repr

/-- A written number. -/
structure Numeral where
  mantissa : Mantissa
  exponent : Option ExponentPart
  deriving DecidableEq, Repr

namespace ExponentPart

/-- The letter of an exponent part. -/
def letter (capital : Bool) : Nat :=
  if capital then 69 else 101

/-- The code points of an exponent part. -/
def codes (part : ExponentPart) : List Nat :=
  letter part.capital :: (Sign.codes part.sign ++ part.digits.map digitCode)

/-- The exponent part that a list of code points may start with, and the rest. -/
def scan : List Nat → Option ExponentPart × List Nat
  | [] => (none, [])
  | first :: rest =>
    if first = letter true ∨ first = letter false then
      let (sign, unsigned) := Sign.scan rest
      match scanDigits unsigned with
      | ([], _) => (none, first :: rest)
      | (digits, rest) => (some ⟨first = letter true, sign, digits⟩, rest)
    else (none, first :: rest)

theorem codes_scan (input : List Nat) :
    ((scan input).1.map codes).getD [] ++ (scan input).2 = input := by
  unfold scan
  split
  · rfl
  · next first rest =>
    split
    · next hletter =>
      dsimp only
      split
      · rfl
      · next digits after _ hscan =>
        have hdigits := codes_scanDigits (Sign.scan rest).2
        rw [hscan] at hdigits
        have hrest := Sign.codes_scan rest
        rw [← hdigits] at hrest
        rcases hletter with rfl | rfl <;> simp [codes, letter, hrest]
    · rfl

/-- The exponent that a part stands for. -/
def value (part : ExponentPart) : Int :=
  Sign.apply part.sign (Decimal.value part.digits)

end ExponentPart

namespace Numeral

/-- The code points of a numeral. -/
def codes (numeral : Numeral) : List Nat :=
  numeral.mantissa.codes ++ (numeral.exponent.map ExponentPart.codes).getD []

/-- The longest numeral that a list of code points starts with, and the rest. -/
def scan (codes : List Nat) : Option (Numeral × List Nat) :=
  let (mantissa, rest) := Mantissa.scan codes
  if mantissa.digits = [] then none
  else
    let (exponent, rest) := ExponentPart.scan rest
    some (⟨mantissa, exponent⟩, rest)

theorem codes_scan {input rest : List Nat} {numeral : Numeral}
    (hscan : scan input = some (numeral, rest)) : numeral.codes ++ rest = input := by
  simp only [scan] at hscan
  split at hscan
  · simp at hscan
  · simp only [Option.some.injEq, Prod.mk.injEq] at hscan
    obtain ⟨rfl, rfl⟩ := hscan
    rw [codes, List.append_assoc, ExponentPart.codes_scan, Mantissa.codes_scan]

/-- The number is negative, or zero with a minus sign. -/
def negative (numeral : Numeral) : Bool :=
  numeral.mantissa.sign = some .minus

/-- A numeral stands for its coefficient times ten to its scale. -/
def coefficient (numeral : Numeral) : Nat :=
  Decimal.value numeral.mantissa.digits

/-- A numeral stands for its coefficient times ten to its scale. -/
def scale (numeral : Numeral) : Int :=
  (numeral.exponent.map ExponentPart.value).getD 0 -
    (numeral.mantissa.fraction.map List.length).getD 0

/-- A numeral without point and exponent part is an integer. -/
def integer? (numeral : Numeral) : Option Int :=
  if numeral.mantissa.fraction = none ∧ numeral.exponent = none then
    some (Sign.apply numeral.mantissa.sign (Decimal.value numeral.mantissa.whole))
  else none

end Numeral

end Metrology
