import Metrology.Numeric.Display
import Mathlib

/-!
# Rounding to significant digits

A ratio is rounded to a number of significant digits in two steps: its decimal exponent is found
(`decimalExponent_spec`), and the digits are rounded at the place that the exponent leaves. Rounding
is monotone, which is all that is needed to know on which side of a bound a rounded ratio lies: what
is less than half a place above the bound is not rounded beyond it (`rounded_le`), and what is half
a place above an odd bound, or more, is (`le_rounded`).
-/

set_option autoImplicit false
set_option relaxedAutoImplicit false

namespace Metrology

/-! ### Digits of natural numbers -/

namespace Decimal

theorem value_append (first second : List Nat) :
    value (first ++ second) = value first * 10 ^ second.length + value second := by
  induction second using List.reverseRecOn with
  | nil => simp [value]
  | append_singleton leading digit ih =>
    rw [← List.append_assoc, value_append_singleton, value_append_singleton, ih,
      List.length_append, List.length_singleton]
    ring

theorem value_replicate_zero (count : Nat) : value (List.replicate count 0) = 0 := by
  induction count with
  | zero => rfl
  | succ count ih => rw [List.replicate_succ', value_append_singleton, ih]

theorem takeWhile_zero_eq (digits : List Nat) :
    digits.takeWhile (· == 0) = List.replicate (digits.takeWhile (· == 0)).length 0 := by
  refine List.eq_replicate_iff.mpr ⟨rfl, fun digit hdigit ↦ ?_⟩
  simpa using List.all_eq_true.mp List.all_takeWhile digit hdigit

/-- Zeros in front do not count. -/
theorem value_dropWhile_zero (digits : List Nat) :
    value (digits.dropWhile (· == 0)) = value digits := by
  conv_rhs => rw [← @List.takeWhile_append_dropWhile _ (· == 0) digits]
  rw [value_append, takeWhile_zero_eq, value_replicate_zero, Nat.zero_mul, Nat.zero_add]

theorem value_lt_pow {digits : List Nat} (hten : ∀ digit ∈ digits, digit < 10) :
    value digits < 10 ^ digits.length := by
  induction digits using List.reverseRecOn with
  | nil => decide
  | append_singleton leading digit ih =>
    have hleading := ih fun other hother ↦ hten other (List.mem_append_left [digit] hother)
    have hdigit := hten digit (by simp)
    rw [value_append_singleton, List.length_append, List.length_singleton, Nat.pow_succ]
    omega

theorem pow_le_value_cons {digit : Nat} {rest : List Nat} (hdigit : digit ≠ 0) :
    10 ^ rest.length ≤ value (digit :: rest) := by
  have hone : 1 ≤ value [digit] := by simp [value]; omega
  rw [← List.singleton_append, value_append]
  exact (Nat.le_mul_of_pos_left _ hone).trans (Nat.le_add_right _ _)

theorem length_digits (number : Nat) : (digits number).length = Nat.log 10 number + 1 := by
  induction number using digits.induct with
  | case1 number hlt => rw [digits, if_pos hlt, Nat.log_of_lt hlt]; rfl
  | case2 number hle ih =>
    rw [digits, if_neg hle, List.length_append, ih, List.length_singleton,
      Nat.log_of_one_lt_of_le (by decide) (Nat.not_lt.mp hle)]

end Decimal

/-! ### Exponents -/

/-- The exponent of the largest power of a base that is at most a ratio. -/
structure IsExponent (base : ℚ) (ratio : ℚ) (exponent : ℤ) : Prop where
  zpow_le : base ^ exponent ≤ ratio
  lt_zpow : ratio < base ^ (exponent + 1)

namespace IsExponent

variable {base ratio : ℚ} {exponent bound : ℤ}

theorem le_of_lt_zpow (hexponent : IsExponent base ratio exponent) (hbase : 1 < base)
    (hlt : ratio < base ^ (bound + 1)) : exponent ≤ bound :=
  Int.lt_add_one_iff.mp ((zpow_lt_zpow_iff_right₀ hbase).mp (hexponent.zpow_le.trans_lt hlt))

theorem le_of_zpow_le (hexponent : IsExponent base ratio exponent) (hbase : 1 < base)
    (hle : base ^ bound ≤ ratio) : bound ≤ exponent :=
  Int.lt_add_one_iff.mp ((zpow_lt_zpow_iff_right₀ hbase).mp (hle.trans_lt hexponent.lt_zpow))

end IsExponent

theorem isExponent_decimalExponent {numerator denominator : Nat} (hnumerator : 0 < numerator)
    (hdenominator : 0 < denominator) :
    IsExponent 10 (numerator / denominator) (Display.decimalExponent numerator denominator) := by
  have hpositive : (0 : ℚ) < denominator := mod_cast hdenominator
  rw [Display.decimalExponent, Decimal.length_digits, Decimal.length_digits]
  split
  · next hle =>
    -- A ratio from one on has the exponent of its whole part.
    have hwhole : numerator / denominator ≠ 0 := (Nat.div_pos hle hdenominator).ne'
    have hfloor := Nat.pow_log_le_self 10 hwhole
    have hnext := Nat.lt_pow_succ_log_self (show 1 < 10 by decide) (numerator / denominator)
    rw [show ((Nat.log 10 (numerator / denominator) + 1 : Nat) : ℤ) - 1 =
      Nat.log 10 (numerator / denominator) by omega]
    constructor
    · rw [zpow_natCast, le_div_iff₀ hpositive]
      exact mod_cast (Nat.le_div_iff_mul_le hdenominator).mp hfloor
    · rw [← Nat.cast_succ, zpow_natCast, div_lt_iff₀ hpositive]
      exact mod_cast (Nat.div_lt_iff_lt_mul hdenominator).mp hnext
  · next hlt =>
    -- Below one it is minus that of the reciprocal, rounded up.
    have hwhole : (denominator - 1) / numerator ≠ 0 :=
      (Nat.div_pos (by omega) hnumerator).ne'
    have hfloor := (Nat.le_div_iff_mul_le hnumerator).mp (Nat.pow_log_le_self 10 hwhole)
    have hnext := (Nat.div_lt_iff_lt_mul hnumerator).mp
      (Nat.lt_pow_succ_log_self (show 1 < 10 by decide) ((denominator - 1) / numerator))
    set log := Nat.log 10 ((denominator - 1) / numerator)
    constructor
    · rw [zpow_neg, zpow_natCast, inv_le_comm₀ (by positivity) (by positivity), inv_div,
        div_le_iff₀ (mod_cast hnumerator)]
      have hle : denominator ≤ 10 ^ (log + 1) * numerator := Nat.le_of_pred_lt hnext
      exact mod_cast hle
    · rw [show -((log + 1 : Nat) : ℤ) + 1 = -(log : ℤ) by omega, zpow_neg, zpow_natCast,
        div_lt_iff₀ hpositive, inv_mul_eq_div, lt_div_iff₀ (by positivity), mul_comm]
      have hlt : 10 ^ log * numerator < denominator := by omega
      exact mod_cast hlt

/-! ### Rounding to an integer -/

/-- A number is a nearest integer to a ratio, and even when there are two. -/
@[mk_iff]
structure RoundsTo (ratio : ℚ) (rounded : Nat) : Prop where
  abs_sub_le : |ratio - rounded| ≤ 1 / 2
  even_of_eq : |ratio - rounded| = 1 / 2 → rounded % 2 = 0

theorem roundsTo_divideToEven {numerator denominator : Nat} (hdenominator : 0 < denominator) :
    RoundsTo (numerator / denominator) (divideToEven numerator denominator) := by
  have hpositive : (0 : ℚ) < denominator := mod_cast hdenominator
  have hlt := Nat.mod_lt numerator hdenominator
  have hdivision : (denominator * (numerator / denominator : Nat) + (numerator % denominator : Nat)
      : ℚ) = numerator := mod_cast Nat.div_add_mod numerator denominator
  have hratio : (numerator / denominator : ℚ) =
      (numerator / denominator : Nat) + (numerator % denominator : Nat) / denominator := by
    rw [← hdivision]
    field_simp
  simp only [divideToEven]
  generalize numerator / denominator = quotient at *
  generalize numerator % denominator = rest at *
  rw [hratio]
  have hrest : (0 : ℚ) ≤ rest / denominator := by positivity
  have hone : (rest / denominator : ℚ) < 1 := (div_lt_one hpositive).mpr (mod_cast hlt)
  have hless : (rest / denominator : ℚ) < 1 / 2 ↔ 2 * rest < denominator := by
    rw [div_lt_div_iff₀ hpositive two_pos, one_mul, mul_comm]
    exact mod_cast Iff.rfl
  have hhalf : (rest / denominator : ℚ) = 1 / 2 ↔ 2 * rest = denominator := by
    rw [div_eq_div_iff hpositive.ne' two_ne_zero, one_mul, mul_comm]
    exact mod_cast Iff.rfl
  split
  · next hdown =>
    have hle : (rest / denominator : ℚ) ≤ 1 / 2 :=
      hdown.elim (fun h ↦ (hless.mpr h).le) fun h ↦ (hhalf.mpr h.1).le
    rw [roundsTo_iff, add_sub_cancel_left, abs_of_nonneg hrest, hhalf]
    exact ⟨hle, by omega⟩
  · next hup =>
    have hge : (1 / 2 : ℚ) ≤ rest / denominator := by
      rw [← not_lt, hless]
      exact fun h ↦ hup (.inl h)
    have hnext : (quotient + rest / denominator - (quotient + 1 : Nat) : ℚ) =
        -(1 - rest / denominator) := by
      push_cast
      ring
    rw [roundsTo_iff, hnext, abs_neg, abs_of_pos (by linarith)]
    refine ⟨by linarith, fun htie ↦ ?_⟩
    have := hhalf.mp (by linarith)
    omega

namespace RoundsTo

variable {ratio : ℚ} {rounded bound : Nat} (hrounds : RoundsTo ratio rounded)

include hrounds

theorem le (hlt : ratio < bound + 1 / 2) : rounded ≤ bound := by
  by_contra hlarge
  have hnext : (bound : ℚ) + 1 ≤ rounded := mod_cast Nat.lt_of_not_le hlarge
  have := (abs_le.mp hrounds.abs_sub_le).1
  linarith

theorem ge (hle : (bound : ℚ) ≤ ratio) : bound ≤ rounded := by
  by_contra hsmall
  have hnext : (rounded : ℚ) + 1 ≤ bound := mod_cast Nat.lt_of_not_le hsmall
  have := (abs_le.mp hrounds.abs_sub_le).2
  linarith

/-- A half above an odd number is rounded up. -/
theorem gt_of_odd (hodd : bound % 2 = 1) (hle : (bound : ℚ) + 1 / 2 ≤ ratio) : bound < rounded := by
  by_contra hsmall
  have hbound : (rounded : ℚ) ≤ bound := mod_cast Nat.le_of_not_lt hsmall
  have hnear := (abs_le.mp hrounds.abs_sub_le).2
  obtain rfl : rounded = bound := by
    have : (bound : ℚ) ≤ rounded := by linarith
    exact le_antisymm (mod_cast hbound) (mod_cast this)
  have htie : |ratio - rounded| = 1 / 2 := by
    rw [abs_of_nonneg (by linarith)]
    linarith
  have := hrounds.even_of_eq htie
  omega

end RoundsTo

theorem zpow_mul_pow_toNat {base : ℚ} (hbase : base ≠ 0) (exponent : ℤ) :
    base ^ exponent * base ^ (-exponent).toNat = base ^ exponent.toNat := by
  rw [← zpow_natCast, ← zpow_natCast, ← zpow_add₀ hbase]
  congr 1
  omega

/-- A number at a place, as a ratio. -/
theorem mul_pow_div_pow {base : Nat} (hbase : 0 < base) (coefficient : Nat) (exponent : ℤ) :
    ((coefficient * base ^ exponent.toNat : Nat) / (base ^ (-exponent).toNat : Nat) : ℚ) =
      coefficient * base ^ exponent := by
  have hpositive : (base : ℚ) ≠ 0 := mod_cast hbase.ne'
  rw [div_eq_iff (by positivity), mul_assoc, Nat.cast_pow, zpow_mul_pow_toNat hpositive]
  push_cast
  rfl

theorem roundsTo_divideScaled {base numerator denominator : Nat} (hbase : 0 < base)
    (hdenominator : 0 < denominator) (exponent : ℤ) :
    RoundsTo (numerator / denominator / base ^ exponent)
      (divideScaled base numerator denominator exponent) := by
  have hpositive : (base : ℚ) ≠ 0 := mod_cast hbase.ne'
  have hrounds := @roundsTo_divideToEven (numerator * base ^ (-exponent).toNat)
    (denominator * base ^ exponent.toNat) (Nat.mul_pos hdenominator (Nat.pow_pos hbase))
  have hratio : ((numerator * base ^ (-exponent).toNat : Nat) /
      (denominator * base ^ exponent.toNat : Nat) : ℚ) =
        numerator / denominator / base ^ exponent := by
    have hplace := zpow_ne_zero exponent hpositive
    push_cast
    rw [← zpow_mul_pow_toNat hpositive exponent]
    field_simp
  rw [hratio] at hrounds
  exact hrounds

/-! ### Significant digits -/

theorem ten_pow_mul_zpow (power : ℕ) (exponent : ℤ) :
    (10 : ℚ) ^ power * 10 ^ exponent = 10 ^ (power + exponent) := by
  rw [zpow_add₀ (by norm_num), zpow_natCast]

namespace Display

/-- A ratio rounded to significant digits, as a number. -/
def rounded (places numerator denominator : Nat) : ℚ :=
  (scientific places numerator denominator).1 *
    10 ^ ((scientific places numerator denominator).2 - (places - 1 : Nat))

variable {further numerator denominator : Nat}

/-- The digits of a ratio, before a carry, with the exponent of the first of them. -/
structure IsRounded (further : Nat) (ratio : ℚ) (exponent : ℤ) (digits : Nat) : Prop where
  isExponent : IsExponent 10 ratio exponent
  roundsTo : RoundsTo (ratio / 10 ^ (exponent - further)) digits

namespace IsRounded

variable {ratio : ℚ} {exponent place : ℤ} {digits bound : Nat}
  (hrounded : IsRounded further ratio exponent digits)

include hrounded

theorem pow_le : 10 ^ further ≤ digits := by
  refine hrounded.roundsTo.ge ?_
  rw [le_div_iff₀ (by positivity), Nat.cast_pow, Nat.cast_ofNat, ten_pow_mul_zpow, add_sub_cancel]
  exact hrounded.isExponent.zpow_le

theorem le_pow : digits ≤ 10 ^ (further + 1) := by
  refine hrounded.roundsTo.le (lt_of_lt_of_le ?_ (le_add_of_nonneg_right (by norm_num)))
  rw [div_lt_iff₀ (by positivity), Nat.cast_pow, Nat.cast_ofNat, ten_pow_mul_zpow, Nat.cast_succ,
    show (further : ℤ) + 1 + (exponent - further) = exponent + 1 by ring]
  exact hrounded.isExponent.lt_zpow

/-- What is less than half a place above a number of as many digits is not rounded beyond it. -/
theorem le (hbound : 10 ^ further ≤ bound) (hdigits : bound < 10 ^ (further + 1))
    (hlt : ratio < (bound + 1 / 2) * 10 ^ place) :
    (digits : ℚ) * 10 ^ (exponent - further) ≤ bound * 10 ^ place := by
  have hbelow : ((bound : ℚ) + 1 / 2) ≤ 10 ^ (further + 1) := by
    have : (bound : ℚ) + 1 ≤ 10 ^ (further + 1) := mod_cast hdigits
    linarith
  have hexponent : exponent ≤ further + place := by
    refine hrounded.isExponent.le_of_lt_zpow (by norm_num) (hlt.trans_le ?_)
    calc ((bound : ℚ) + 1 / 2) * 10 ^ place
      _ ≤ 10 ^ (further + 1) * 10 ^ place := by gcongr
      _ = 10 ^ (further + place + 1) := by rw [ten_pow_mul_zpow]; congr 1; push_cast; ring
  rcases hexponent.eq_or_lt with rfl | hless
  · rw [add_sub_cancel_left]
    have hrounds := hrounded.roundsTo
    rw [add_sub_cancel_left] at hrounds
    have hdigits : digits ≤ bound := hrounds.le ((div_lt_iff₀ (by positivity)).mpr hlt)
    gcongr
  · -- All digits of a smaller exponent are less than the first digit of the bound.
    calc (digits : ℚ) * 10 ^ (exponent - further)
      _ ≤ 10 ^ (further + 1) * 10 ^ (exponent - further) := by
        gcongr
        exact mod_cast hrounded.le_pow
      _ = 10 ^ (exponent + 1) := by rw [ten_pow_mul_zpow]; congr 1; push_cast; ring
      _ ≤ 10 ^ (further + place) := zpow_le_zpow_right₀ (by norm_num) hless
      _ = 10 ^ further * 10 ^ place := (ten_pow_mul_zpow further place).symm
      _ ≤ bound * 10 ^ place := by
        gcongr
        exact mod_cast hbound

/-- What is half a place above an odd number of as many digits, or more, is rounded beyond it. -/
theorem ge (hbound : 10 ^ further ≤ bound) (hdigits : bound < 10 ^ (further + 1))
    (hodd : bound % 2 = 1) (hle : (bound + 1 / 2) * 10 ^ place ≤ ratio) :
    (bound + 1 : ℚ) * 10 ^ place ≤ digits * 10 ^ (exponent - further) := by
  have hexponent : further + place ≤ exponent := by
    refine hrounded.isExponent.le_of_zpow_le (by norm_num) (le_trans ?_ hle)
    rw [← ten_pow_mul_zpow]
    gcongr
    have : (10 : ℚ) ^ further ≤ bound := mod_cast hbound
    linarith
  rcases hexponent.eq_or_lt with rfl | hless
  · rw [add_sub_cancel_left]
    have hrounds := hrounded.roundsTo
    rw [add_sub_cancel_left] at hrounds
    have hdigits : bound + 1 ≤ digits :=
      hrounds.gt_of_odd hodd ((le_div_iff₀ (by positivity)).mpr hle)
    gcongr
    exact mod_cast hdigits
  · calc (bound + 1 : ℚ) * 10 ^ place
      _ ≤ 10 ^ (further + 1) * 10 ^ place := by
        gcongr
        exact mod_cast hdigits
      _ = 10 ^ (further + place + 1) := by rw [ten_pow_mul_zpow]; congr 1; push_cast; ring
      _ ≤ 10 ^ exponent := zpow_le_zpow_right₀ (by norm_num) hless
      _ = 10 ^ further * 10 ^ (exponent - further) := by
        rw [ten_pow_mul_zpow, add_sub_cancel]
      _ ≤ digits * 10 ^ (exponent - further) := by
        gcongr
        exact mod_cast hrounded.pow_le

end IsRounded

/-- A ratio is rounded at the last place of its digits. A carry changes the digits and the exponent,
but not the number. -/
theorem exists_isRounded (further : Nat) (hnumerator : 0 < numerator)
    (hdenominator : 0 < denominator) :
    ∃ exponent digits, IsRounded further (numerator / denominator) exponent digits ∧
      rounded (further + 1) numerator denominator = digits * 10 ^ (exponent - further) ∧
      ((scientific (further + 1) numerator denominator).1 = digits ∧ digits ≠ 10 ^ (further + 1) ∨
        (scientific (further + 1) numerator denominator).1 = 10 ^ further) := by
  refine ⟨_, _, ⟨isExponent_decimalExponent hnumerator hdenominator,
    roundsTo_divideScaled (by decide) hdenominator _⟩, ?_⟩
  rw [rounded, scientific, Nat.add_sub_cancel]
  dsimp only
  split
  · next hcarry =>
    refine ⟨?_, .inr rfl⟩
    rw [hcarry]
    show ((10 ^ further : Nat) : ℚ) * _ = ((10 ^ (further + 1) : Nat) : ℚ) * _
    rw [Nat.cast_pow, Nat.cast_pow, Nat.cast_ofNat, ten_pow_mul_zpow, ten_pow_mul_zpow]
    congr 1
    push_cast
    ring
  · next hfits => exact ⟨rfl, .inl ⟨rfl, hfits⟩⟩

variable {bound : Nat} {place : ℤ}

theorem rounded_le (hnumerator : 0 < numerator) (hdenominator : 0 < denominator)
    (hbound : 10 ^ further ≤ bound) (hdigits : bound < 10 ^ (further + 1))
    (hlt : (numerator / denominator : ℚ) < (bound + 1 / 2) * 10 ^ place) :
    rounded (further + 1) numerator denominator ≤ bound * 10 ^ place := by
  obtain ⟨_, _, hrounded, heq, _⟩ := exists_isRounded further hnumerator hdenominator
  rw [heq]
  exact hrounded.le hbound hdigits hlt

theorem le_rounded (hnumerator : 0 < numerator) (hdenominator : 0 < denominator)
    (hbound : 10 ^ further ≤ bound) (hdigits : bound < 10 ^ (further + 1)) (hodd : bound % 2 = 1)
    (hle : (bound + 1 / 2) * 10 ^ place ≤ (numerator / denominator : ℚ)) :
    (bound + 1 : ℚ) * 10 ^ place ≤ rounded (further + 1) numerator denominator := by
  obtain ⟨_, _, hrounded, heq, _⟩ := exists_isRounded further hnumerator hdenominator
  rw [heq]
  exact hrounded.ge hbound hdigits hodd hle

/-- A ratio is rounded to as many digits as asked for. -/
theorem scientific_digits (further : Nat) (hnumerator : 0 < numerator)
    (hdenominator : 0 < denominator) :
    10 ^ further ≤ (scientific (further + 1) numerator denominator).1 ∧
      (scientific (further + 1) numerator denominator).1 < 10 ^ (further + 1) := by
  obtain ⟨_, _, hrounded, _, ⟨heq, hne⟩ | heq⟩ :=
    exists_isRounded further hnumerator hdenominator
  · rw [heq]
    exact ⟨hrounded.pow_le, hrounded.le_pow.lt_of_ne hne⟩
  · rw [heq]
    exact ⟨le_rfl, Nat.pow_lt_pow_succ (by decide)⟩

end Display

end Metrology
