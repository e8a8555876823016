/-!
# Powers and roots of doubles

Integer powers fix one, the zeroth power is one and the first power changes nothing, which holds
exactly for doubles. A root of odd order is real for negative numbers too.
-/

set_option autoImplicit false
set_option relaxedAutoImplicit false

namespace Metrology.Real64

/-- A double to an integer power. -/
def power (number : Float) (exponent : Int) : Float :=
  if number = 1.0 ∨ exponent = 0 then 1.0
  else if exponent = 1 then number
  else number.pow (Float.ofInt exponent)

@[simp] theorem power_one_left (exponent : Int) : power 1.0 exponent = 1.0 := by
  simp [power]

@[simp] theorem power_one (number : Float) : power number 1 = number := by
  unfold power
  split
  · next h => rcases h with rfl | h <;> simp_all
  · simp

/-- The root of an order other than zero. -/
def root (number : Float) (order : Int) : Float :=
  if number < 0.0 ∧ order % 2 ≠ 0 then -((-number).pow (1.0 / Float.ofInt order))
  else number.pow (1.0 / Float.ofInt order)

/-- The larger of two doubles; the first one when neither is less. -/
def larger (first second : Float) : Float :=
  if first < second then second else first

end Metrology.Real64
