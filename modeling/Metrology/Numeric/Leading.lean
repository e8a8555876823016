import Metrology.Numeric.Conversion

/-!
# The number that a text starts with

A text is read as a number by its leading part: white space is skipped, then the longest written
number counts and whatever follows it does not. An integer is a sign and decimal digits. A double is
a decimal numeral, a hexadecimal one (`0x1.8p3`), an infinity (`inf`) or a NaN (`nan`), in capitals
or small letters. A text that starts with no number gives none, and so does a number out of range.
-/

set_option autoImplicit false
set_option relaxedAutoImplicit false

namespace Metrology.Leading

/-- The white space before a number: space, tab, line feed, vertical tab, form feed, return. -/
def isSpace (code : Nat) : Bool :=
  code == 32 || (9 ≤ code && code ≤ 13)

/-- The least and the greatest 32-bit signed integer bound the integers in range. -/
def integer? (text : Text) : Option Int :=
  let (sign, unsigned) := Sign.scan ((text.map UInt8.toNat).dropWhile isSpace)
  let digits := (scanDigits unsigned).1
  let number := Sign.apply sign (Decimal.value digits)
  if digits ≠ [] ∧ -2147483648 ≤ number ∧ number ≤ 2147483647 then some number else none

/-- The small letter of an ASCII capital. -/
def smallLetter (code : Nat) : Nat :=
  if 65 ≤ code ∧ code ≤ 90 then code + 32 else code

/-- The code points start with a word, in capitals or small letters. -/
def startsWithWord (word : String) (codes : List Nat) : Bool :=
  (word.toList.map Char.toNat).isPrefixOf (codes.map smallLetter)

/-- The value of a hexadecimal digit. -/
def hexValue? (code : Nat) : Option Nat :=
  let code := smallLetter code
  if isDigit code then some (digitValue code)
  else if 97 ≤ code ∧ code ≤ 102 then some (code - 87)
  else none

/-- The values of the hexadecimal digits that a list of code points starts with, and the rest. -/
def scanHexDigits (codes : List Nat) : List Nat × List Nat :=
  let digits := codes.takeWhile fun code ↦ (hexValue? code).isSome
  (digits.filterMap hexValue?, codes.drop digits.length)

/-- The power of two after hexadecimal digits; zero when there is none. -/
def binaryScale : List Nat → Int
  | [] => 0
  | first :: rest =>
    if smallLetter first = 112 then
      let (sign, unsigned) := Sign.scan rest
      Sign.apply sign (Decimal.value (scanDigits unsigned).1)
    else 0

/-- The double of the hexadecimal digits after `0x`. Without digits only the zero before the `x`
counts. -/
def hexadecimal (negative : Bool) (codes : List Nat) : Conversion :=
  let (whole, afterWhole) := scanHexDigits codes
  let (fraction, rest) :=
    match afterWhole with
    | 46 :: tail => scanHexDigits tail
    | _ => ([], afterWhole)
  let coefficient := (whole ++ fraction).foldl (fun number digit ↦ 16 * number + digit) 0
  let places := if coefficient = 0 then 0 else coefficient.log2 + 1
  Conversion.ofScaled negative 2 coefficient places (binaryScale rest - 4 * fraction.length)

/-- The double that a list of code points starts with. -/
def conversion? (codes : List Nat) : Option Conversion :=
  let codes := codes.dropWhile isSpace
  let (sign, unsigned) := Sign.scan codes
  let negative := decide (sign = some .minus)
  if startsWithWord "inf" unsigned then
    some ⟨Binary64.ofRank negative Binary64.infinityBits, true⟩
  else if startsWithWord "nan" unsigned then some ⟨0.0 / 0.0, true⟩
  else if startsWithWord "0x" unsigned then some (hexadecimal negative (unsigned.drop 2))
  else (Numeral.scan codes).map fun (numeral, _) ↦ numeral.convert

/-- The double that a text starts with; none when there is none or it is out of range. -/
def double? (text : Text) : Option Float :=
  match conversion? (text.map UInt8.toNat) with
  | some conversion => if conversion.inRange then some conversion.value else none
  | none => none

end Metrology.Leading
