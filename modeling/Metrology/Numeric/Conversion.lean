import Metrology.Numeric.Numeral

/-!
# From numerals to doubles

A numeral is read as the double nearest to it. `Conversion` keeps beside the double whether the
number has one within range: a number is out of range when it is too large for a finite double, or
when it lies below the normal doubles and is no double itself (`Binary64.Overflows` and
`Binary64.Underflows`). Zero always is in range, whatever its exponent, and keeps its sign.
-/

set_option autoImplicit false
set_option relaxedAutoImplicit false

namespace Metrology

/-- The double nearest to a number, and whether the number is in the range of doubles. -/
structure Conversion where
  value : Float
  inRange : Bool

namespace Conversion

/-- A signed zero. -/
def zero (negative : Bool) : Conversion :=
  ⟨Binary64.ofRank negative 0, true⟩

/-- A number that is too large. -/
def tooLarge (negative : Bool) : Conversion :=
  ⟨Binary64.ofRank negative Binary64.infinityBits, false⟩

/-- A number that is closer to zero than any double. -/
def tooSmall (negative : Bool) : Conversion :=
  ⟨Binary64.ofRank negative 0, false⟩

/-- The nearest double of a ratio. -/
def ofRatio (negative : Bool) (numerator denominator : Nat) : Conversion :=
  if numerator = 0 then zero negative
  else
    ⟨Binary64.ofRank negative (Binary64.nearestBits numerator denominator),
      ¬ (Binary64.Overflows numerator denominator ∨ Binary64.Underflows numerator denominator)⟩

/-- The nearest double of `coefficient * base ^ scale`, where `places` is the number of digits of
the coefficient in that base. Numbers that their places alone show to be out of range are not
computed. -/
def ofScaled (negative : Bool) (base coefficient places : Nat) (scale : Int) : Conversion :=
  if coefficient = 0 then zero negative
  else if 1100 < places + scale then tooLarge negative
  else if places + scale < -1100 then tooSmall negative
  else
    ofRatio negative (coefficient * Nat.pow base scale.toNat) (Nat.pow base (-scale).toNat)

end Conversion

/-- The number of digits of a numeral from its first non-zero digit on. -/
def Numeral.places (numeral : Numeral) : Nat :=
  (numeral.mantissa.digits.dropWhile (· == 0)).length

/-- The double nearest to a numeral. -/
def Numeral.convert (numeral : Numeral) : Conversion :=
  Conversion.ofScaled numeral.negative 10 numeral.coefficient numeral.places numeral.scale

end Metrology
