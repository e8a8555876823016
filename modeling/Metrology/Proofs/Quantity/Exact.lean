import Metrology.Proofs.Fallible
import Metrology.Quantity.Basic

/-!
# Quantities without a range of exponents

Products, quotients and powers are total on quantities whose exponents are all integers. The
operations of `Quantity` are these, restricted to results in range: each succeeds where the exact
result is in range, and then gives that result.
-/

set_option autoImplicit false
set_option relaxedAutoImplicit false

namespace Metrology

/-- A magnitude with an integer exponent for every base dimension. -/
structure ExactQuantity where
  magnitude : Float
  exponent : Text → Int

namespace ExactQuantity

/-- A plain number. -/
def number (magnitude : Float) : ExactQuantity :=
  ⟨magnitude, fun _ ↦ 0⟩

def mul (first second : ExactQuantity) : ExactQuantity :=
  ⟨first.magnitude * second.magnitude,
    fun identifier ↦ first.exponent identifier + second.exponent identifier⟩

def div (first second : ExactQuantity) : ExactQuantity :=
  ⟨first.magnitude / second.magnitude,
    fun identifier ↦ first.exponent identifier - second.exponent identifier⟩

def power (quantity : ExactQuantity) (exponent : Int) : ExactQuantity :=
  ⟨Real64.power quantity.magnitude exponent,
    fun identifier ↦ exponent * quantity.exponent identifier⟩

/-- Every exponent is in the range of exponents. -/
def InRange (quantity : ExactQuantity) : Prop :=
  ∀ identifier, InExponentRange (quantity.exponent identifier)

end ExactQuantity

namespace Quantity

/-- A quantity with its exponents as integers. -/
def exact (quantity : Quantity) : ExactQuantity :=
  ⟨quantity.magnitude, quantity.dimension.exponent⟩

theorem exact_injective {first second : Quantity} (hexact : first.exact = second.exact) :
    first = second := by
  cases first
  cases second
  simp only [exact, ExactQuantity.mk.injEq] at hexact
  obtain ⟨rfl, hexponent⟩ := hexact
  rw [Dimension.ext_exponent (congrFun hexponent)]

theorem inRange_exact (quantity : Quantity) : quantity.exact.InRange :=
  quantity.dimension.inExponentRange_exponent

theorem withDimension_eq_ok_iff {magnitude : Float} {dimension : Except DimensionError Dimension}
    {result : Quantity} : withDimension magnitude dimension = .ok result ↔
      dimension = .ok result.dimension ∧ result.magnitude = magnitude := by
  rw [withDimension, Fallible.map_eq_ok_iff]
  constructor
  · rintro ⟨_, hdimension, rfl⟩
    exact ⟨hdimension, rfl⟩
  · rintro ⟨hdimension, rfl⟩
    exact ⟨result.dimension, hdimension, rfl⟩

theorem exists_withDimension_iff {magnitude : Float}
    {dimension : Except DimensionError Dimension} :
    (∃ result, withDimension magnitude dimension = .ok result) ↔
      ∃ value, dimension = .ok value := by
  constructor
  · rintro ⟨result, hresult⟩
    exact ⟨result.dimension, (withDimension_eq_ok_iff.mp hresult).1⟩
  · rintro ⟨value, hvalue⟩
    exact ⟨⟨magnitude, value⟩, withDimension_eq_ok_iff.mpr ⟨hvalue, rfl⟩⟩

theorem exact_eq_iff {quantity : Quantity} {value : ExactQuantity} :
    quantity.exact = value ↔ quantity.magnitude = value.magnitude ∧
      ∀ identifier, quantity.dimension.exponent identifier = value.exponent identifier := by
  cases value
  rw [exact, ExactQuantity.mk.injEq, funext_iff]

theorem mul_eq_ok_iff {first second result : Quantity} :
    first.mul second = .ok result ↔ result.exact = first.exact.mul second.exact := by
  rw [mul, withDimension_eq_ok_iff, Dimension.product, Dimension.combine_eq_ok_iff, exact_eq_iff,
    and_comm]
  simp only [Int.one_mul, ExactQuantity.mul, exact]

theorem exists_mul_iff {first second : Quantity} :
    (∃ result, first.mul second = .ok result) ↔ (first.exact.mul second.exact).InRange := by
  rw [mul, exists_withDimension_iff, Dimension.product, Dimension.exists_combine_eq_ok_iff]
  simp only [Int.one_mul, ExactQuantity.InRange, ExactQuantity.mul, exact]

theorem div_eq_ok_iff {first second result : Quantity} :
    first.div second = .ok result ↔ result.exact = first.exact.div second.exact := by
  rw [div, withDimension_eq_ok_iff, Dimension.quotient, Dimension.combine_eq_ok_iff, exact_eq_iff,
    and_comm]
  simp only [Int.neg_one_mul, ← Int.sub_eq_add_neg, ExactQuantity.div, exact]

theorem exists_div_iff {first second : Quantity} :
    (∃ result, first.div second = .ok result) ↔ (first.exact.div second.exact).InRange := by
  rw [div, exists_withDimension_iff, Dimension.quotient, Dimension.exists_combine_eq_ok_iff]
  simp only [Int.neg_one_mul, ← Int.sub_eq_add_neg, ExactQuantity.InRange, ExactQuantity.div,
    exact]

theorem power_eq_ok_iff {quantity result : Quantity} {exponent : Int} :
    quantity.power exponent = .ok result ↔ result.exact = quantity.exact.power exponent := by
  rw [power, withDimension_eq_ok_iff, Dimension.power_eq_ok_iff, exact_eq_iff, and_comm]
  simp only [ExactQuantity.power, exact]

theorem exists_power_iff {quantity : Quantity} {exponent : Int} :
    (∃ result, quantity.power exponent = .ok result) ↔
      (quantity.exact.power exponent).InRange := by
  rw [power, exists_withDimension_iff, Dimension.exists_power_eq_ok_iff]
  simp only [ExactQuantity.InRange, ExactQuantity.power, exact]

end Quantity

end Metrology
