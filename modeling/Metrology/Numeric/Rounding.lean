/-!
# Rounding of exact ratios

A ratio of natural numbers is rounded to an integer (`divideToEven`, a half goes to the even
neighbour), to a number of decimal digits (`scientific`) and to the nearest double
(`Binary64.nearestBits`). All of it is exact integer arithmetic. A double other than infinity and
NaN is an integer below `2 ^ 53` times a power of two, and the bit pattern of a non-negative one is
its rank among the doubles: that is why `nearestBits` may add the rounded significand to the
exponent field and let a carry run through.
-/

set_option autoImplicit false
set_option relaxedAutoImplicit false

namespace Metrology

/-- The integer nearest to a ratio; a half goes to the even one of its two neighbours. -/
def divideToEven (numerator denominator : Nat) : Nat :=
  let quotient := numerator / denominator
  let twice := 2 * (numerator % denominator)
  if twice < denominator ∨ (twice = denominator ∧ quotient % 2 = 0) then quotient else quotient + 1

/-- The integer nearest to a ratio divided by `base ^ exponent`. -/
def divideScaled (base numerator denominator : Nat) (exponent : Int) : Nat :=
  divideToEven (numerator * Nat.pow base (-exponent).toNat)
    (denominator * Nat.pow base exponent.toNat)

namespace Binary64

/-- The exponent of the largest power of two that is at most a ratio of positive numbers. -/
def binaryExponent (numerator denominator : Nat) : Int :=
  let estimate : Int := (numerator.log2 : Int) - denominator.log2
  if denominator * Nat.pow 2 estimate.toNat ≤ numerator * Nat.pow 2 (-estimate).toNat then
    estimate
  else estimate - 1

/-- The exponent of the last place of a double is never less. -/
def leastExponent : Int := -1074

/-- The bits of infinity. -/
def infinityBits : Nat := 0x7FF * Nat.pow 2 52

/-- The rank among the non-negative doubles of the one nearest to a ratio of positive numbers, a tie
going to the even significand. Ranks from `infinityBits` on stand for no finite double. -/
def nearestBits (numerator denominator : Nat) : Nat :=
  let exponent := max (binaryExponent numerator denominator - 52) leastExponent
  divideScaled 2 numerator denominator exponent + (exponent - leastExponent).toNat * Nat.pow 2 52

/-- A ratio of positive numbers is too large for a finite double. -/
def Overflows (numerator denominator : Nat) : Prop :=
  infinityBits ≤ nearestBits numerator denominator

/-- A ratio of positive numbers lies below the normal doubles, also when it is first rounded to 53
binary digits, and is no multiple of the least positive double. -/
def Underflows (numerator denominator : Nat) : Prop :=
  numerator * Nat.pow 2 1076 < (Nat.pow 2 54 - 1) * denominator ∧
    numerator * Nat.pow 2 1074 % denominator ≠ 0

instance (numerator denominator : Nat) : Decidable (Overflows numerator denominator) :=
  inferInstanceAs (Decidable (_ ≤ _))

instance (numerator denominator : Nat) : Decidable (Underflows numerator denominator) :=
  inferInstanceAs (Decidable (_ ∧ _))

/-- The double with a sign and a rank among the non-negative doubles. -/
def ofRank (negative : Bool) (rank : Nat) : Float :=
  Float.ofBits ((if negative then Nat.pow 2 63 else 0) + min rank infinityBits).toUInt64

/-- The sign, numerator and denominator of a finite double; none for an infinity and a NaN. The
sign of zero is kept. -/
def ratio? (number : Float) : Option (Bool × Nat × Nat) :=
  let bits := number.toBits.toNat
  let negative := decide (Nat.pow 2 63 ≤ bits)
  let field := bits / Nat.pow 2 52 % Nat.pow 2 11
  let fraction := bits % Nat.pow 2 52
  if field = 0x7FF then none
  else
    let significand := if field = 0 then fraction else fraction + Nat.pow 2 52
    let exponent : Int := (max field 1 : Nat) - 1 + leastExponent
    some (negative, significand * Nat.pow 2 exponent.toNat, Nat.pow 2 (-exponent).toNat)

end Binary64

end Metrology
