import Metrology.Proofs.Numeric.Printed
import Metrology.Proofs.Numeric.Rounding

/-!
# The range of doubles

A ratio has a nearest double unless it is too large, or lies below the normal doubles and is none of
the multiples of the least double (`Binary64.overflows_iff`, `Binary64.underflows_iff`). A numeral
is in range under the same conditions on its number (`Numeral.IsWritten.inRange_convert_iff`);
numbers that their places alone show to be out of range are no exception.
-/

set_option autoImplicit false
set_option relaxedAutoImplicit false

namespace Metrology

namespace Binary64

variable {numerator denominator : Nat}

theorem zpow_le_div_iff (hdenominator : 0 < denominator) (exponent : ℤ) :
    (2 : ℚ) ^ exponent ≤ numerator / denominator ↔
      denominator * 2 ^ exponent.toNat ≤ numerator * 2 ^ (-exponent).toNat := by
  have hpower := @mul_pow_div_pow 2 two_pos 1 exponent
  push_cast at hpower
  rw [one_mul, one_mul] at hpower
  rw [← hpower, div_le_div_iff₀ (by positivity) (mod_cast hdenominator), mul_comm]
  exact mod_cast Iff.rfl

theorem isExponent_binaryExponent (hnumerator : 0 < numerator) (hdenominator : 0 < denominator) :
    IsExponent 2 (numerator / denominator) (binaryExponent numerator denominator) := by
  have hquotient : ∀ first second : Nat, (2 : ℚ) ^ ((first : ℤ) - second) = 2 ^ first / 2 ^ second := by
    intro first second
    rw [zpow_sub₀ two_ne_zero, zpow_natCast, zpow_natCast]
  have hlower : (2 : ℚ) ^ ((numerator.log2 : ℤ) - (denominator.log2 + 1 : Nat)) ≤
      numerator / denominator := by
    rw [hquotient]
    gcongr
    · exact mod_cast Nat.log2_self_le hnumerator.ne'
    · exact mod_cast (@Nat.lt_log2_self denominator).le
  have hupper : (numerator / denominator : ℚ) <
      2 ^ (((numerator.log2 + 1 : Nat) : ℤ) - denominator.log2) := by
    have hless : (numerator : ℚ) < 2 ^ (numerator.log2 + 1) := mod_cast @Nat.lt_log2_self numerator
    have hle : (2 : ℚ) ^ denominator.log2 ≤ denominator :=
      mod_cast Nat.log2_self_le hdenominator.ne'
    rw [hquotient]
    exact div_lt_div₀ hless hle (by positivity) (by positivity)
  rw [binaryExponent]
  split
  · next hle =>
    refine ⟨(zpow_le_div_iff hdenominator _).mpr hle, ?_⟩
    rwa [Nat.cast_succ, add_sub_right_comm] at hupper
  · next hlt =>
    refine ⟨?_, ?_⟩
    · rwa [Nat.cast_succ, ← sub_sub] at hlower
    · rw [sub_add_cancel, ← not_le, zpow_le_div_iff hdenominator]
      exact hlt

section

variable {ratio : ℚ} {exponent place : ℤ} {significand : Nat}
  (hexponent : IsExponent 2 ratio exponent) (hround : RoundsTo (ratio / 2 ^ place) significand)

include hexponent hround

/-- A significand is the next power of two at most. -/
theorem significand_le (hplace : exponent ≤ place + 52) : significand ≤ 2 ^ 53 := by
  refine hround.le ((div_lt_iff₀ (by positivity)).mpr (hexponent.lt_zpow.trans_le ?_))
  calc (2 : ℚ) ^ (exponent + 1)
    _ ≤ 2 ^ ((53 : ℕ) + place) := zpow_le_zpow_right₀ one_le_two (by omega)
    _ = 2 ^ 53 * 2 ^ place := (Real64.two_pow_mul_zpow 53 place).symm
    _ ≤ ((2 ^ 53 : Nat) + 1 / 2) * 2 ^ place := by
      push_cast
      gcongr
      norm_num

/-- A significand has 53 binary digits at least, unless digits are cut off at the least exponent. -/
theorem le_significand (hplace : exponent = place + 52) : 2 ^ 52 ≤ significand := by
  refine hround.ge ((le_div_iff₀ (by positivity)).mpr (le_trans ?_ hexponent.zpow_le))
  rw [Nat.cast_pow, Nat.cast_ofNat, Real64.two_pow_mul_zpow,
    show (52 : ℕ) + place = exponent by omega]

end

/-- A number is nearer to the next power of two than to the largest finite double, or half-way
between. -/
def IsTooLarge (number : ℚ) : Prop :=
  (2 ^ 53 - 1 / 2) * 2 ^ (971 : ℤ) ≤ number

/-- A number lies below the normal doubles, also when it is rounded to as many digits, and is no
multiple of the least double. -/
def IsTooSmall (number : ℚ) : Prop :=
  number < (Nat.pow 2 54 - 1 : Nat) / 2 ^ 1076 ∧ ¬ ∃ count : Nat, number = count / 2 ^ 1074

theorem overflows_iff (hnumerator : 0 < numerator) (hdenominator : 0 < denominator) :
    Overflows numerator denominator ↔ IsTooLarge (numerator / denominator) := by
  have hexponent := isExponent_binaryExponent hnumerator hdenominator
  have hrounds := fun place ↦
    @roundsTo_divideScaled 2 numerator denominator two_pos hdenominator place
  rw [Overflows, nearestBits, IsTooLarge]
  generalize binaryExponent numerator denominator = exponent at *
  generalize hplace : max (exponent - 52) leastExponent = place
  have hround := hrounds place
  generalize divideScaled 2 numerator denominator place = significand at *
  rw [leastExponent] at *
  have hodd : ((2 ^ 53 - 1 : Nat) : ℚ) + 1 / 2 = 2 ^ 53 - 1 / 2 := by norm_num
  have hunit : Nat.pow 2 52 = 4503599627370496 := rfl
  have hinfinity : infinityBits = 2047 * 4503599627370496 := rfl
  rw [hunit, hinfinity]
  constructor
  · intro hlarge
    by_contra hsmall
    rw [not_le] at hsmall
    have htop : exponent ≤ 1023 := by
      refine hexponent.le_of_lt_zpow one_lt_two (hsmall.trans_le ?_)
      rw [show (1023 : ℤ) + 1 = (53 : ℕ) + 971 by norm_num, ← Real64.two_pow_mul_zpow]
      gcongr
      norm_num
    rcases htop.eq_or_lt with rfl | hless
    · obtain rfl : place = 971 := by omega
      have hbound : significand ≤ 2 ^ 53 - 1 := by
        refine hround.le ((div_lt_iff₀ (by positivity)).mpr ?_)
        rw [hodd]
        exact hsmall
      omega
    · have hbound := significand_le hexponent hround (by omega)
      omega
  · intro hle
    have htop : 1023 ≤ exponent := by
      refine hexponent.le_of_zpow_le one_lt_two (le_trans ?_ hle)
      rw [show (1023 : ℤ) = (52 : ℕ) + 971 by norm_num, ← Real64.two_pow_mul_zpow]
      gcongr
      norm_num
    rcases htop.eq_or_lt with rfl | hless
    · obtain rfl : place = 971 := by omega
      have hbound : 2 ^ 53 - 1 < significand := by
        refine hround.gt_of_odd (by decide) ((le_div_iff₀ (by positivity)).mpr ?_)
        rw [hodd]
        exact hle
      omega
    · have hbound := le_significand hexponent hround (by omega)
      omega

theorem lt_div_two_pow_iff (hdenominator : 0 < denominator) (bound power : Nat) :
    (numerator / denominator : ℚ) < bound / 2 ^ power ↔
      numerator * Nat.pow 2 power < bound * denominator := by
  show _ ↔ numerator * 2 ^ power < bound * denominator
  rw [div_lt_div_iff₀ (mod_cast hdenominator) (by positivity)]
  exact mod_cast Iff.rfl

theorem exists_eq_div_two_pow_iff (hdenominator : 0 < denominator) (power : Nat) :
    (∃ count : Nat, (numerator / denominator : ℚ) = count / 2 ^ power) ↔
      numerator * Nat.pow 2 power % denominator = 0 := by
  show _ ↔ numerator * 2 ^ power % denominator = 0
  rw [← Nat.dvd_iff_mod_eq_zero]
  refine exists_congr fun count ↦ ?_
  rw [div_eq_div_iff (mod_cast hdenominator.ne') (by positivity), mul_comm denominator]
  exact mod_cast Iff.rfl

theorem underflows_iff (hdenominator : 0 < denominator) :
    Underflows numerator denominator ↔ IsTooSmall (numerator / denominator) := by
  rw [Underflows, IsTooSmall]
  generalize 1076 = bound, 1074 = least
  exact and_congr (lt_div_two_pow_iff hdenominator _ bound).symm
    (not_congr (exists_eq_div_two_pow_iff hdenominator least).symm)

theorem isTooLarge_of_le {number : ℚ} (hle : 10 ^ 1100 ≤ number) : IsTooLarge number := by
  refine le_trans ?_ hle
  calc ((2 ^ 53 - 1 / 2 : ℚ)) * 2 ^ (971 : ℤ)
    _ ≤ 2 ^ 53 * 2 ^ (971 : ℤ) := by
      gcongr
      norm_num
    _ = 2 ^ 1024 := by
      rw [Real64.two_pow_mul_zpow]
      exact zpow_natCast 2 1024
    _ ≤ 10 ^ 1024 := by
      gcongr
      norm_num
    _ ≤ 10 ^ 1100 := pow_le_pow_right₀ (by norm_num) (by decide)

theorem isTooSmall_of_lt {number : ℚ} (hpositive : 0 < number) (hlt : number < 1 / 2 ^ 1074) :
    IsTooSmall number := by
  rw [IsTooSmall, show 1076 = 1074 + 2 from rfl]
  generalize 1074 = least at *
  refine ⟨hlt.trans_le ?_, ?_⟩
  · rw [div_le_div_iff₀ (by positivity) (by positivity), pow_add, one_mul, mul_comm]
    gcongr
    norm_num
  · rintro ⟨count, rfl⟩
    rw [div_lt_div_iff_of_pos_right (by positivity)] at hlt
    have hzero : count = 0 := Nat.lt_one_iff.mp (mod_cast hlt)
    rw [hzero, Nat.cast_zero, zero_div] at hpositive
    exact lt_irrefl 0 hpositive

end Binary64

open Binary64

/-! ### Conversions -/

namespace Conversion

theorem inRange_ofRatio_iff (negative : Bool) {numerator denominator : Nat}
    (hnumerator : 0 < numerator) (hdenominator : 0 < denominator) :
    (ofRatio negative numerator denominator).inRange = true ↔
      ¬ IsTooLarge (numerator / denominator) ∧ ¬ IsTooSmall (numerator / denominator) := by
  rw [ofRatio, if_neg hnumerator.ne', ← overflows_iff hnumerator hdenominator,
    ← underflows_iff hdenominator, ← not_or]
  exact decide_eq_true_iff

/-- The number of its digits shows rightly that a number is out of range. -/
theorem inRange_ofScaled_iff (negative : Bool) {coefficient places : Nat} {scale : ℤ}
    (hpositive : 0 < coefficient) (hle : 10 ^ (places - 1) ≤ coefficient)
    (hlt : coefficient < 10 ^ places) :
    (ofScaled negative 10 coefficient places scale).inRange = true ↔
      ¬ IsTooLarge (coefficient * 10 ^ scale) ∧ ¬ IsTooSmall (coefficient * 10 ^ scale) := by
  have hratio : ((coefficient * Nat.pow 10 scale.toNat : Nat) /
      (Nat.pow 10 (-scale).toNat : Nat) : ℚ) = coefficient * 10 ^ scale :=
    @mul_pow_div_pow 10 (by decide) coefficient scale
  rw [ofScaled, if_neg hpositive.ne']
  split
  · next hlarge =>
    have hbound : (10 : ℚ) ^ 1100 ≤ coefficient * 10 ^ scale := by
      calc (10 : ℚ) ^ 1100
        _ = 10 ^ (1100 : ℤ) := (zpow_natCast 10 1100).symm
        _ ≤ 10 ^ ((places - 1 : Nat) + scale) := zpow_le_zpow_right₀ (by norm_num) (by omega)
        _ = 10 ^ (places - 1) * 10 ^ scale := (ten_pow_mul_zpow _ _).symm
        _ ≤ coefficient * 10 ^ scale := by
          gcongr
          exact mod_cast hle
    exact iff_of_false Bool.false_ne_true fun h ↦ h.1 (isTooLarge_of_le hbound)
  · split
    · next hsmall =>
      have hbound : (coefficient * 10 ^ scale : ℚ) < 1 / 2 ^ 1074 := by
        calc (coefficient * 10 ^ scale : ℚ)
          _ < 10 ^ places * 10 ^ scale := by
            gcongr
            exact mod_cast hlt
          _ = 10 ^ (places + scale) := ten_pow_mul_zpow _ _
          _ ≤ 10 ^ (-1074 : ℤ) := zpow_le_zpow_right₀ (by norm_num) (by omega)
          _ = 1 / 10 ^ 1074 := by
            rw [zpow_neg, one_div]
            exact congrArg _ (zpow_natCast 10 1074)
          _ ≤ 1 / 2 ^ 1074 := by
            gcongr
            norm_num
      exact iff_of_false Bool.false_ne_true
        fun h ↦ h.2 (isTooSmall_of_lt (by positivity) hbound)
    · rw [← hratio]
      exact inRange_ofRatio_iff negative (Nat.mul_pos hpositive (Nat.pow_pos (by decide)))
        (Nat.pow_pos (by decide))

end Conversion

theorem Numeral.IsWritten.digits_lt {numeral : Numeral} (hwritten : numeral.IsWritten) :
    ∀ digit ∈ numeral.mantissa.digits, digit < 10 := by
  intro digit hdigit
  rcases List.mem_append.mp hdigit with hwhole | hfraction
  · exact hwritten.whole_lt digit hwhole
  · cases heq : numeral.mantissa.fraction with
    | none =>
      rw [heq] at hfraction
      cases hfraction
    | some digits =>
      rw [heq] at hfraction
      exact hwritten.fraction_lt digits heq digit hfraction

/-- A numeral is in the range of doubles when it stands for zero, or for a number that is neither
too large nor too small. -/
theorem Numeral.IsWritten.inRange_convert_iff {numeral : Numeral} (hwritten : numeral.IsWritten) :
    numeral.convert.inRange = true ↔
      numeral.number = 0 ∨ ¬ IsTooLarge numeral.number ∧ ¬ IsTooSmall numeral.number := by
  have hvalue := Decimal.value_dropWhile_zero numeral.mantissa.digits
  have hten : ∀ digit ∈ numeral.mantissa.digits.dropWhile (· == 0), digit < 10 :=
    fun digit hdigit ↦ hwritten.digits_lt digit ((List.dropWhile_sublist _).subset hdigit)
  have hlt := Decimal.value_lt_pow hten
  rw [hvalue] at hlt
  rw [convert, number]
  by_cases hzero : numeral.coefficient = 0
  · rw [hzero, Conversion.ofScaled, if_pos rfl]
    simp [Conversion.zero]
  · have hle : 10 ^ (numeral.places - 1) ≤ numeral.coefficient := by
      rw [coefficient, ← hvalue, places]
      cases hdigits : numeral.mantissa.digits.dropWhile (· == 0) with
      | nil =>
        rw [hdigits] at hvalue
        exact absurd hvalue.symm hzero
      | cons digit rest =>
        have hdigit := List.head?_dropWhile_not (· == 0) numeral.mantissa.digits
        rw [hdigits] at hdigit
        exact Decimal.pow_le_value_cons (beq_eq_false_iff_ne.mp hdigit)
    rw [Conversion.inRange_ofScaled_iff _ (Nat.pos_of_ne_zero hzero) hle hlt, or_iff_right]
    have : (numeral.coefficient : ℚ) ≠ 0 := mod_cast hzero
    positivity

/-! ### Printed doubles -/

namespace Display

/-- Few digits at a low place are no multiple of a power of a half. -/
theorem not_exists_eq_div_two_pow {digits : Nat} {place : ℤ} (hpositive : 0 < digits)
    (hlt : digits < 10 ^ 6) (hplace : place ≤ -9) (power : Nat) :
    ¬ ∃ count : Nat, (digits * 10 ^ place : ℚ) = count / 2 ^ power := by
  obtain ⟨scale, rfl⟩ : ∃ scale : Nat, place = -(scale : ℤ) := ⟨place.natAbs, by omega⟩
  rintro ⟨count, heq⟩
  rw [zpow_neg, zpow_natCast, ← div_eq_mul_inv, div_eq_div_iff (by positivity) (by positivity)]
    at heq
  have hnat : digits * 2 ^ power = count * 10 ^ scale := mod_cast heq
  have hdvd : 5 ^ scale ∣ digits * 2 ^ power := by
    rw [hnat, show 10 = 5 * 2 from rfl, Nat.mul_pow]
    exact (Dvd.intro _ rfl).mul_left count
  have hfive := Nat.Coprime.dvd_of_dvd_mul_right
    (Nat.Coprime.pow scale power (by decide : Nat.Coprime 5 2)) hdvd
  have hle := Nat.le_of_dvd hpositive hfive
  have hpower : 5 ^ 9 ≤ 5 ^ scale := Nat.pow_le_pow_right (by decide) (by omega)
  omega

/-- The least magnitude that is printed as a number no smaller than the normal doubles. It lies
half-way between two numbers of six digits. -/
def leastReadable : ℚ := (222507 + 1 / 2) * 10 ^ (-313 : ℤ)

variable {numerator denominator : Nat}

theorem mul_zpow_lt_iff (digits bound place power : Nat) :
    (digits * 10 ^ (-(place : ℤ)) : ℚ) < bound / 2 ^ power ↔
      digits * Nat.pow 2 power < bound * 10 ^ place := by
  have hratio := @lt_div_two_pow_iff digits (10 ^ place) (by positivity) bound power
  rw [Nat.cast_pow, Nat.cast_ofNat] at hratio
  rw [zpow_neg, zpow_natCast, ← div_eq_mul_inv]
  exact hratio

theorem isTooSmall_rounded (hnumerator : 0 < numerator) (hdenominator : 0 < denominator)
    (hlt : (numerator / denominator : ℚ) < leastReadable) :
    IsTooSmall (rounded 6 numerator denominator) := by
  have hle := rounded_le hnumerator hdenominator (show 10 ^ 5 ≤ 222507 by decide) (by decide) hlt
  obtain ⟨hsome, hdigits⟩ := scientific_digits 5 hnumerator hdenominator
  refine ⟨hle.trans_lt ((mul_zpow_lt_iff 222507 _ 313 1076).mpr (by decide +kernel)), ?_⟩
  rw [rounded] at hle ⊢
  refine not_exists_eq_div_two_pow ((Nat.pow_pos (by decide)).trans_le hsome) hdigits ?_ 1074
  -- The first digit alone would be larger than the bound at a higher place.
  generalize (scientific 6 numerator denominator).2 - ((6 - 1 : Nat) : ℤ) = place at *
  have hbelow : (10 : ℚ) ^ ((5 : ℕ) + place) < 10 ^ ((6 : ℕ) + (-313 : ℤ)) := by
    rw [← ten_pow_mul_zpow, ← ten_pow_mul_zpow]
    calc (10 : ℚ) ^ 5 * 10 ^ place
      _ ≤ (scientific 6 numerator denominator).1 * 10 ^ place := by
        gcongr
        exact mod_cast hsome
      _ ≤ (222507 : Nat) * 10 ^ (-313 : ℤ) := hle
      _ < 10 ^ 6 * 10 ^ (-313 : ℤ) := by
        gcongr
        norm_num
  have := (zpow_lt_zpow_iff_right₀ (by norm_num)).mp hbelow
  omega

theorem not_isTooSmall_rounded (hnumerator : 0 < numerator) (hdenominator : 0 < denominator)
    (hle : leastReadable ≤ (numerator / denominator : ℚ)) :
    ¬ IsTooSmall (rounded 6 numerator denominator) := by
  have hrounded := le_rounded hnumerator hdenominator (show 10 ^ 5 ≤ 222507 by decide) (by decide)
    (by decide) hle
  intro hsmall
  have hlt : (((222508 : Nat) : ℚ) * 10 ^ (-(313 : Nat) : ℤ)) < _ :=
    lt_of_le_of_lt (by exact_mod_cast hrounded) hsmall.1
  exact absurd ((mul_zpow_lt_iff 222508 _ 313 1076).mp hlt) (by decide +kernel)

theorem two_zpow_lt {digits place power : Nat}
    (hlt : 2 * 2 ^ power < (2 * digits + 1) * 10 ^ place) :
    (2 : ℚ) ^ (power : ℤ) < (digits + 1 / 2) * 10 ^ (place : ℤ) := by
  have hcast : (2 * 2 ^ power : ℚ) < (2 * digits + 1) * 10 ^ place := mod_cast hlt
  rw [zpow_natCast, zpow_natCast]
  linarith

theorem mul_ten_zpow_lt {digits place significand power : Nat}
    (hlt : 2 * digits * 10 ^ place + 2 ^ power < 2 * significand * 2 ^ power) :
    (digits * 10 ^ (place : ℤ) : ℚ) < (significand - 1 / 2) * 2 ^ (power : ℤ) := by
  have hcast : (2 * digits * 10 ^ place + 2 ^ power : ℚ) < 2 * significand * 2 ^ power :=
    mod_cast hlt
  rw [zpow_natCast, zpow_natCast]
  linarith

theorem not_isTooLarge_rounded (hnumerator : 0 < numerator) (hdenominator : 0 < denominator)
    (hlt : (numerator / denominator : ℚ) < 2 ^ (1024 : ℤ)) :
    ¬ IsTooLarge (rounded 6 numerator denominator) := by
  have hbelow : (2 : ℚ) ^ (1024 : ℤ) < ((179769 : Nat) + 1 / 2) * 10 ^ (303 : ℤ) :=
    @two_zpow_lt 179769 303 1024 (by decide +kernel)
  have hle := rounded_le hnumerator hdenominator (show 10 ^ 5 ≤ 179769 by decide) (by decide)
    (hlt.trans hbelow)
  have habove := @mul_ten_zpow_lt 179769 303 (2 ^ 53) 971 (by decide +kernel)
  rw [Nat.cast_pow, Nat.cast_ofNat] at habove
  exact not_le.mpr (hle.trans_lt habove)

/-- The general form of a finite double is a numeral, and in the range of doubles unless the double
is a small one. -/
theorem exists_general {number : Float} (hfinite : number.isFinite) :
    ∃ (numeral : Numeral) (shown : ℚ), numeral.Writes (general number) shown ∧
      (numeral.convert.inRange = true ↔
        Real64.value number = 0 ∨ leastReadable ≤ |Real64.value number|) := by
  obtain ⟨numeral, numerator, denominator, hdenominator, hvalue, hwrites⟩ :=
    exists_writes_general hfinite
  refine ⟨numeral, _, hwrites, ?_⟩
  have hvalueZero : Real64.value number = 0 ↔ (numerator / denominator : ℚ) = 0 := by
    rw [← abs_eq_zero, hvalue]
  rw [hwrites.isWritten.inRange_convert_iff, hwrites.number_eq, hvalueZero, hvalue]
  by_cases hzero : numerator = 0
  · subst hzero
    simp
  · have hnumerator := Nat.pos_of_ne_zero hzero
    have hbelow : (numerator / denominator : ℚ) < 2 ^ (1024 : ℤ) := by
      rw [← hvalue]
      exact (Real64.abs_value_le number).trans_lt Real64.maximum_lt
    have hratio : (numerator / denominator : ℚ) ≠ 0 := by positivity
    have hpositive : rounded 6 numerator denominator ≠ 0 := by
      have := (scientific_digits 5 hnumerator hdenominator).1
      rw [rounded]
      positivity
    rw [if_neg hzero, or_iff_right hpositive, or_iff_right hratio,
      and_iff_right (not_isTooLarge_rounded hnumerator hdenominator hbelow), ← not_lt]
    exact not_congr ⟨fun hsmall ↦ by_contra fun hle ↦
      not_isTooSmall_rounded hnumerator hdenominator (not_lt.mp hle) hsmall,
      isTooSmall_rounded hnumerator hdenominator⟩

end Display

end Metrology
