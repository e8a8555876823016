import Metrology.Proofs.Dimension.ExactExponents

/-!
# Laws of the algebra of dimensions

Products, quotients and powers obey the laws of a commutative group as far as they are defined. Each
law follows from the exponents that its sides compute: results that compute the same exponents are
the same, also when they fail, since the exponents decide which identifier is reported
(`Computes.unique`). That a side is defined is shown by naming its result.
-/

set_option autoImplicit false
set_option relaxedAutoImplicit false

namespace Metrology.Dimension

/-! ### Results are known by their exponents -/

/-- There is one result with given exponents: one dimension, or one error. -/
theorem Computes.unique {first second : Except DimensionError Dimension} {exponent : Text → Int}
    (hfirst : Computes first exponent) (hsecond : Computes second exponent) : first = second := by
  cases first with
  | ok result =>
    cases second with
    | ok other =>
      refine congrArg Except.ok (ext_exponent fun identifier ↦ ?_)
      rw [(hfirst.stores result rfl).exponent_eq, (hsecond.stores other rfl).exponent_eq]
    | error error =>
      obtain ⟨_, herror⟩ := hfirst.fails_iff.mpr (hsecond.fails_iff.mp ⟨error, rfl⟩)
      cases herror
  | error error =>
    obtain ⟨identifier, hleaves, rfl⟩ := hfirst.reports error rfl
    cases second with
    | ok other =>
      obtain ⟨_, herror⟩ := hsecond.fails_iff.mpr ⟨identifier, hleaves.outOfRange⟩
      cases herror
    | error error =>
      obtain ⟨other, hother, rfl⟩ := hsecond.reports error rfl
      rw [hleaves.unique hother]

theorem Computes.congr {result : Except DimensionError Dimension} {exponent other : Text → Int}
    (hresult : Computes result exponent)
    (hsame : ∀ identifier, exponent identifier = other identifier) : Computes result other :=
  funext hsame ▸ hresult

theorem computes_product (first second : Dimension) :
    Computes (first.product second) fun identifier ↦
      first.exponent identifier + second.exponent identifier :=
  (computes_combine first second 1).congr fun identifier ↦ by rw [Int.one_mul]

theorem computes_quotient (first second : Dimension) :
    Computes (first.quotient second) fun identifier ↦
      first.exponent identifier - second.exponent identifier :=
  (computes_combine first second (-1)).congr fun identifier ↦ by
    rw [Int.neg_one_mul, Int.sub_eq_add_neg]

theorem product_eq_ok_iff {first second result : Dimension} :
    first.product second = .ok result ↔ ∀ identifier, result.exponent identifier =
      first.exponent identifier + second.exponent identifier := by
  simp only [product, combine_eq_ok_iff, Int.one_mul]

theorem quotient_eq_ok_iff {first second result : Dimension} :
    first.quotient second = .ok result ↔ ∀ identifier, result.exponent identifier =
      first.exponent identifier - second.exponent identifier := by
  simp only [quotient, combine_eq_ok_iff, Int.neg_one_mul, ← Int.sub_eq_add_neg]

/-! ### Products and quotients -/

variable {first second third : Dimension}

theorem product_comm (first second : Dimension) : first.product second = second.product first :=
  (computes_product first second).unique <|
    (computes_product second first).congr fun _ ↦ Int.add_comm _ _

theorem product_one (dimension : Dimension) : dimension.product one = .ok dimension :=
  product_eq_ok_iff.mpr fun identifier ↦ by rw [exponent_one, Int.add_zero]

theorem quotient_one (dimension : Dimension) : dimension.quotient one = .ok dimension :=
  quotient_eq_ok_iff.mpr fun identifier ↦ by rw [exponent_one, Int.sub_zero]

theorem quotient_self (dimension : Dimension) : dimension.quotient dimension = .ok one :=
  quotient_eq_ok_iff.mpr fun identifier ↦ by rw [exponent_one, Int.sub_self]

theorem quotient_of_product {result : Dimension} (hproduct : first.product second = .ok result) :
    result.quotient second = .ok first :=
  quotient_eq_ok_iff.mpr fun identifier ↦ by
    rw [product_eq_ok_iff.mp hproduct, Int.add_sub_cancel]

theorem product_of_quotient {result : Dimension}
    (hquotient : first.quotient second = .ok result) : result.product second = .ok first :=
  product_eq_ok_iff.mpr fun identifier ↦ by
    rw [quotient_eq_ok_iff.mp hquotient, Int.sub_add_cancel]

theorem product_assoc {left right : Dimension} (hleft : first.product second = .ok left)
    (hright : second.product third = .ok right) : left.product third = first.product right := by
  refine (computes_product left third).unique ?_
  refine (computes_product first right).congr fun identifier ↦ ?_
  rw [product_eq_ok_iff.mp hleft, product_eq_ok_iff.mp hright, Int.add_assoc]

theorem quotient_eq_power_quotient {inverse : Dimension}
    (hinverse : second.quotient first = .ok inverse) :
    first.quotient second = inverse.power (-1) := by
  refine (computes_quotient first second).unique ?_
  refine (computes_power inverse (-1)).congr fun identifier ↦ ?_
  rw [quotient_eq_ok_iff.mp hinverse, Int.neg_one_mul, Int.neg_sub]

/-! ### Powers -/

theorem power_power {dimension power : Dimension} {inner : Int}
    (hpower : dimension.power inner = .ok power) (outer : Int) :
    power.power outer = dimension.power (inner * outer) := by
  refine (computes_power power outer).unique ?_
  refine (computes_power dimension (inner * outer)).congr fun identifier ↦ ?_
  rw [power_eq_ok_iff.mp hpower, Int.mul_comm inner, Int.mul_assoc]

theorem product_power {dimension left right : Dimension} {power other : Int}
    (hleft : dimension.power power = .ok left) (hright : dimension.power other = .ok right) :
    left.product right = dimension.power (power + other) := by
  refine (computes_product left right).unique ?_
  refine (computes_power dimension (power + other)).congr fun identifier ↦ ?_
  rw [power_eq_ok_iff.mp hleft, power_eq_ok_iff.mp hright, Int.add_mul]

/-- For all dimensions and powers. A product is that of its factors in the other order, or both fail
with the same error; the dimension of a plain number is neutral, and every dimension can be divided
by itself. A quotient undoes a product with the same dimension, which always succeeds, and a product
undoes a quotient. Where both sides of the other laws get as far as their last operation, these are
the same, whether they succeed or fail: products are associative, a quotient is the inverse of the
quotient in the other order, the power of a power multiplies the two powers, and a product of powers
adds them. -/
theorem group_laws (first second third : Dimension) (power other : Int) :
    first.product second = second.product first ∧
      first.product one = .ok first ∧ one.product first = .ok first ∧
      first.quotient one = .ok first ∧ first.quotient first = .ok one ∧
      (∀ result, first.product second = .ok result → result.quotient second = .ok first) ∧
      (∀ result, first.quotient second = .ok result → result.product second = .ok first) ∧
      (∀ left right, first.product second = .ok left → second.product third = .ok right →
        left.product third = first.product right) ∧
      (∀ inverse, second.quotient first = .ok inverse →
        first.quotient second = inverse.power (-1)) ∧
      (∀ result, first.power power = .ok result →
        result.power other = first.power (power * other)) ∧
      ∀ left right, first.power power = .ok left → first.power other = .ok right →
        left.product right = first.power (power + other) := by
  refine ⟨product_comm first second, product_one first, ?_, quotient_one first,
    quotient_self first, fun _ ↦ quotient_of_product, fun _ ↦ product_of_quotient,
    fun _ _ ↦ product_assoc, fun _ ↦ quotient_eq_power_quotient,
    fun _ hresult ↦ power_power hresult other, fun _ _ ↦ product_power⟩
  rw [product_comm, product_one]

/-- The inverse of the least exponent is out of range, as a quotient and as a power. -/
theorem group_laws_lowest :
    lowest.quotient one = .ok lowest ∧ one.quotient lowest = lowest.power (-1) := by
  obtain ⟨-, -, -, hone, -⟩ := group_laws lowest one one 1 1
  obtain ⟨-, -, -, -, -, -, -, -, hquotient, -⟩ := group_laws one lowest one 1 1
  exact ⟨hone, hquotient lowest hone⟩

end Metrology.Dimension
