import Metrology.Numeric.Power
import Metrology.Proofs.Numeric.Doubles

/-!
# Rounding

Differences and products of doubles are rounded to the nearest one. A rounded number is off by at
most half a unit in its last place (`Near`), and a number that fits is not changed. A difference of
two doubles is exact when neither is less than it (`value_sub_of_le`), and a product or difference
overflows only when it is larger than the largest double (`Rounds`).
-/

set_option autoImplicit false
set_option relaxedAutoImplicit false

namespace Metrology.Real64

open Float.Model Float.Model.UnpackedFloat

/-! ### Shifting -/

/-- A mantissa that lost its last bits, where `rest` is what these bits counted. The round bit says
whether this was at least a half, and the sticky bit whether it was neither nothing nor a half. -/
structure Shifted (mantissa amount : Nat) (extended : ExtendedMantissa) (rest : Nat) : Prop where
  rest_lt : rest < 2 ^ amount
  eq_add : mantissa = 2 ^ amount * extended.mantissa + rest
  roundBit_iff : extended.roundBit = true ↔ 2 ^ amount ≤ 2 * rest
  of_not_stickyBit : extended.stickyBit = false → rest = 0 ∨ 2 * rest = 2 ^ amount

theorem Shifted.shiftRightOne {mantissa amount rest : Nat} {extended : ExtendedMantissa}
    (hshifted : Shifted mantissa amount extended rest) :
    Shifted mantissa (amount + 1) extended.shiftRightOne
      (2 ^ amount * (extended.mantissa % 2) + rest) := by
  obtain ⟨hlt, heq, hround, hsticky⟩ := hshifted
  have hpow : 2 ^ (amount + 1) = 2 * 2 ^ amount := by rw [Nat.pow_succ, Nat.mul_comm]
  have hsum : 2 ^ amount * extended.mantissa =
      2 ^ (amount + 1) * (extended.mantissa / 2) + 2 ^ amount * (extended.mantissa % 2) := by
    rw [Nat.pow_succ, Nat.mul_assoc, ← Nat.mul_add, Nat.div_add_mod]
  have hbit : (extended.mantissa % 2 != 0) = true ↔ extended.mantissa % 2 = 1 := by
    rw [bne_iff_ne]
    omega
  refine ⟨?_, ?_, ?_, fun hnone ↦ ?_⟩
  · rcases Nat.mod_two_eq_zero_or_one extended.mantissa with hmod | hmod <;> rw [hmod] <;> omega
  · rw [heq, hsum, Nat.add_assoc]
    rfl
  · rw [ExtendedMantissa.shiftRightOne, hbit]
    rcases Nat.mod_two_eq_zero_or_one extended.mantissa with hmod | hmod <;> rw [hmod] <;> omega
  · -- Neither bit is set, so the bits lost before count less than a half, and nothing but a half.
    rw [ExtendedMantissa.shiftRightOne, Bool.or_eq_false_iff] at hnone
    have hless : ¬ 2 ^ amount ≤ 2 * rest := by
      rw [← hround, hnone.1]
      exact Bool.false_ne_true
    have hrest := hsticky hnone.2
    rcases Nat.mod_two_eq_zero_or_one extended.mantissa with hmod | hmod <;> rw [hmod] <;> omega

theorem exists_shifted (mantissa amount : Nat) :
    ∃ rest, Shifted mantissa amount
      (ExtendedMantissa.ofMantissaAndAccuracy mantissa .exact >>> amount) rest := by
  induction amount with
  | zero => exact ⟨0, by decide, (Nat.one_mul mantissa).symm,
      iff_of_false Bool.false_ne_true (by decide), fun _ ↦ .inl rfl⟩
  | succ amount ih =>
    obtain ⟨rest, hshifted⟩ := ih
    exact ⟨_, hshifted.shiftRightOne⟩

section Shifted

variable {mantissa amount rest : Nat} {extended : ExtendedMantissa}

/-- Rounding a mantissa that lost its last bits is off by half of what they count at most. -/
theorem Shifted.roundedMantissa (hshifted : Shifted mantissa amount extended rest) :
    2 * mantissa ≤ 2 * (2 ^ amount * extended.roundedMantissa) + 2 ^ amount ∧
      2 * (2 ^ amount * extended.roundedMantissa) ≤ 2 * mantissa + 2 ^ amount := by
  obtain ⟨kept, round, sticky⟩ := extended
  obtain ⟨hlt, heq, hround, hsticky⟩ := hshifted
  change mantissa = 2 ^ amount * kept + rest at heq
  have hnext : 2 ^ amount * (kept + 1) = 2 ^ amount * kept + 2 ^ amount := Nat.mul_succ ..
  cases round <;> cases sticky
  case false.false | false.true =>
    have hless : ¬ 2 ^ amount ≤ 2 * rest := fun hle ↦ Bool.false_ne_true (hround.mpr hle)
    show 2 * mantissa ≤ 2 * (2 ^ amount * kept) + _ ∧ 2 * (2 ^ amount * kept) ≤ _
    omega
  case true.false =>
    have hhalf : 2 ^ amount ≤ 2 * rest := hround.mp rfl
    have hrest := hsticky rfl
    show 2 * mantissa ≤ 2 * (2 ^ amount * (kept + kept % 2)) + _ ∧
      2 * (2 ^ amount * (kept + kept % 2)) ≤ _
    rcases Nat.mod_two_eq_zero_or_one kept with hmod | hmod <;> rw [hmod]
    · rw [Nat.add_zero]
      omega
    · omega
  case true.true =>
    have hhalf : 2 ^ amount ≤ 2 * rest := hround.mp rfl
    show 2 * mantissa ≤ 2 * (2 ^ amount * (kept + 1)) + _ ∧ 2 * (2 ^ amount * (kept + 1)) ≤ _
    omega

theorem Shifted.roundedMantissa_le (hshifted : Shifted mantissa amount extended rest)
    (hlt : mantissa < 2 ^ (53 + amount)) : extended.roundedMantissa ≤ 2 ^ 53 := by
  by_contra hlarge
  have hless := Nat.mul_le_mul_left (2 ^ amount) (Nat.lt_of_not_le hlarge)
  have hrounded := hshifted.roundedMantissa.2
  have hpow := Nat.two_pow_pos amount
  rw [Nat.pow_add] at hlt
  rw [Nat.mul_succ] at hless
  omega

theorem Shifted.le_roundedMantissa (hshifted : Shifted mantissa amount extended rest)
    (hle : 2 ^ (52 + amount) ≤ mantissa) : 2 ^ 52 ≤ extended.roundedMantissa := by
  by_contra hsmall
  have hless := Nat.mul_le_mul_left (2 ^ amount) (Nat.lt_of_not_le hsmall)
  have hrounded := hshifted.roundedMantissa.1
  have hpow := Nat.two_pow_pos amount
  rw [Nat.pow_add] at hle
  rw [Nat.mul_succ] at hless
  omega

theorem Shifted.abs_roundedMantissa_sub_le (hshifted : Shifted mantissa amount extended rest)
    (exponent : Int) :
    |(extended.roundedMantissa : ℚ) * 2 ^ (exponent + amount) - mantissa * 2 ^ exponent| ≤
      2 ^ (exponent + amount) / 2 := by
  obtain ⟨hlower, hupper⟩ := hshifted.roundedMantissa
  have hlower' : (2 : ℚ) * mantissa ≤ 2 * (2 ^ amount * extended.roundedMantissa) + 2 ^ amount :=
    mod_cast hlower
  have hupper' : (2 : ℚ) * (2 ^ amount * extended.roundedMantissa) ≤ 2 * mantissa + 2 ^ amount :=
    mod_cast hupper
  have hpow : (2 : ℚ) ^ (exponent + amount) = 2 ^ amount * 2 ^ exponent := by
    rw [two_pow_mul_zpow, add_comm]
  have hdistance : |2 ^ amount * (extended.roundedMantissa : ℚ) - mantissa| ≤ 2 ^ amount / 2 := by
    rw [abs_le]
    constructor <;> linarith
  calc |(extended.roundedMantissa : ℚ) * 2 ^ (exponent + amount) - mantissa * 2 ^ exponent|
    _ = |2 ^ amount * (extended.roundedMantissa : ℚ) - mantissa| * 2 ^ exponent := by
      rw [hpow, ← abs_of_pos (zpow_pos two_pos exponent : (0 : ℚ) < 2 ^ exponent), ← abs_mul,
        abs_of_pos (zpow_pos two_pos exponent : (0 : ℚ) < 2 ^ exponent)]
      ring_nf
    _ ≤ 2 ^ amount / 2 * 2 ^ exponent := by gcongr
    _ = 2 ^ (exponent + amount) / 2 := by rw [hpow, div_mul_eq_mul_div]

end Shifted

/-! ### Rounding -/

/-- The exponent that rounding gives a number. -/
theorem targetExponent_eq (mantissa : Nat) (exponent : Int) :
    Format.binary64.targetExponent (totalExponent mantissa exponent) =
      max (mantissa.log2 + exponent - 52) (-1074) := by
  show max ((mantissa.log2 : Int) + 1 + exponent - 53) (-1074) = _
  congr 1
  omega

theorem shiftToTargetExponent_of_le {mantissa : Nat} {exponent : Int}
    (hle : max (mantissa.log2 + exponent - 52) (-1074) ≤ exponent) :
    shiftToTargetExponent Format.binary64 mantissa exponent .exact =
      (⟨mantissa, false, false⟩, exponent) := by
  have hnone : (max (mantissa.log2 + exponent - 52) (-1074) - exponent).toNat = 0 := by omega
  rw [shiftToTargetExponent, targetExponent_eq, shiftToExponent, hnone]
  exact congrArg _ (Int.add_zero exponent)

theorem shiftToTargetExponent_of_lt {mantissa : Nat} {exponent : Int} (hlt : mantissa < 2 ^ 53)
    (hmin : -1074 ≤ exponent) :
    shiftToTargetExponent Format.binary64 mantissa exponent .exact =
      (⟨mantissa, false, false⟩, exponent) := by
  refine shiftToTargetExponent_of_le ?_
  rcases Nat.eq_zero_or_pos mantissa with rfl | hpositive
  · rw [Nat.log2_zero]
    omega
  · have hlog := (Nat.log2_lt hpositive.ne').mpr hlt
    omega

/-- A mantissa that rounding up made too large is a power of two. -/
theorem shiftToTargetExponent_carry {exponent : Int} (hmin : -1074 ≤ exponent) :
    shiftToTargetExponent Format.binary64 (2 ^ 53) exponent .exact =
      (⟨2 ^ 52, false, false⟩, exponent + 1) := by
  have hone : (max (((2 ^ 53 : Nat).log2 : Int) + exponent - 52) (-1074) - exponent).toNat = 1 := by
    rw [Nat.log2_two_pow]
    omega
  rw [shiftToTargetExponent, targetExponent_eq, shiftToExponent, hone]
  rfl

/-- Rounding keeps the rounded mantissa that is left after shifting. -/
theorem roundWithAccuracy_of_shift (sign : UnpackedFloat.Sign) {mantissa : Nat}
    {exponent place : Int} {extended : ExtendedMantissa}
    (hshift : shiftToTargetExponent Format.binary64 mantissa exponent .exact = (extended, place))
    (hmin : -1074 ≤ place) (hle : extended.roundedMantissa ≤ 2 ^ 53)
    (hnormal : 2 ^ 52 ≤ extended.roundedMantissa ∨ place = -1074) :
    Regular (roundWithAccuracy Format.binary64 sign mantissa exponent .exact) ∧
      rational (roundWithAccuracy Format.binary64 sign mantissa exponent .exact) =
        signed sign (extended.roundedMantissa * 2 ^ place) := by
  rw [roundWithAccuracy, hshift]
  dsimp only
  generalize extended.roundedMantissa = rounded at *
  rcases hle.lt_or_eq with hlt | rfl
  · rw [shiftToTargetExponent_of_lt hlt hmin]
    dsimp only
    split
    · next hzero =>
      refine ⟨.zero sign, ?_⟩
      rw [hzero, Nat.cast_zero, zero_mul]
      cases sign <;> rfl
    · exact ⟨.finite sign _ ⟨hlt, hmin, hnormal⟩, rfl⟩
  · rw [shiftToTargetExponent_carry hmin]
    dsimp only
    rw [dif_neg (by decide)]
    refine ⟨.finite sign _ ⟨by decide, by omega, .inl (Nat.le_refl _)⟩, ?_⟩
    rw [rational, zpow_add_one₀ two_ne_zero]
    congr 1
    push_cast
    ring

/-- A canonical form is not changed. -/
theorem roundWithAccuracy_of_canonical (sign : UnpackedFloat.Sign) {mantissa : Nat} {exponent : Int}
    (hcanonical : Canonical mantissa exponent) :
    Regular (roundWithAccuracy Format.binary64 sign mantissa exponent .exact) ∧
      rational (roundWithAccuracy Format.binary64 sign mantissa exponent .exact) =
        signed sign (mantissa * 2 ^ exponent) :=
  have ⟨hlt, hmin, hnormal⟩ := hcanonical
  roundWithAccuracy_of_shift sign (shiftToTargetExponent_of_lt hlt hmin) hmin hlt.le hnormal

/-- The least positive double. -/
def least : ℚ := 2 ^ (-1074 : ℤ)

/-- A number is off by at most half a unit in the last place, and not on the other side of zero, as
a rounded one is. -/
structure Near (rounded exact : ℚ) : Prop where
  abs_sub_le : |rounded - exact| ≤ max (least / 2) (|exact| / 2 ^ 53)
  mul_nonneg : 0 ≤ rounded * exact

theorem Near.refl (exact : ℚ) : Near exact exact := by
  refine ⟨?_, mul_self_nonneg exact⟩
  rw [sub_self, abs_zero]
  exact le_max_of_le_right (by positivity)

theorem Near.abs_sub_le_of_le {rounded exact slack : ℚ} (hnear : Near rounded exact)
    (hleast : least / 2 ≤ slack) (hexact : |exact| ≤ 2 ^ 53 * slack) :
    |rounded - exact| ≤ slack := by
  refine hnear.abs_sub_le.trans (max_le hleast ?_)
  rw [div_le_iff₀ (by positivity)]
  linarith

theorem near_signed (sign : UnpackedFloat.Sign) {rounded exact : ℚ} (hnear : Near rounded exact) :
    Near (signed sign rounded) (signed sign exact) := by
  refine ⟨?_, ?_⟩
  · rw [signed_sub, abs_signed, abs_signed]
    exact hnear.abs_sub_le
  · rw [← signed_mul]
    cases sign <;> exact hnear.mul_nonneg

/-- An unpacked double in canonical form that a rational number is rounded to. -/
structure IsRounding (unpacked : UnpackedFloat) (exact : ℚ) : Prop where
  regular : Regular unpacked
  near : Near (rational unpacked) exact

theorem IsRounding.of_eq {unpacked : UnpackedFloat} {exact : ℚ} (hregular : Regular unpacked)
    (heq : rational unpacked = exact) : IsRounding unpacked exact :=
  ⟨hregular, heq ▸ Near.refl _⟩

/-- A number is rounded to the nearest one of the exponent that rounding gives it. -/
theorem isRounding_roundWithAccuracy (sign : UnpackedFloat.Sign) {mantissa : Nat} {exponent : Int}
    (hpositive : 0 < mantissa)
    (hle : exponent ≤ max (mantissa.log2 + exponent - 52) (-1074)) :
    IsRounding (roundWithAccuracy Format.binary64 sign mantissa exponent .exact)
      (signed sign (mantissa * 2 ^ exponent)) := by
  obtain ⟨amount, hamount⟩ := Int.le.dest hle
  obtain ⟨rest, hshifted⟩ := exists_shifted mantissa amount
  have hshift : shiftToTargetExponent Format.binary64 mantissa exponent .exact =
      (ExtendedMantissa.ofMantissaAndAccuracy mantissa .exact >>> amount, exponent + amount) := by
    rw [shiftToTargetExponent, targetExponent_eq, ← hamount, shiftToExponent,
      add_sub_cancel_left, Int.toNat_natCast]
  have hlt : mantissa < 2 ^ (53 + amount) :=
    Nat.lt_log2_self.trans_le (Nat.pow_le_pow_right two_pos (by omega))
  have hnormal : 2 ^ (52 + amount) ≤ mantissa ∨ exponent + amount = -1074 := by
    by_cases hmin : exponent + amount = -1074
    · exact .inr hmin
    · refine .inl (le_trans ?_ (Nat.log2_self_le hpositive.ne'))
      exact Nat.pow_le_pow_right two_pos (by omega)
  obtain ⟨hregular, heq⟩ := roundWithAccuracy_of_shift sign hshift (by omega)
    (hshifted.roundedMantissa_le hlt) (hnormal.imp_left hshifted.le_roundedMantissa)
  refine ⟨hregular, ?_⟩
  rw [heq]
  refine near_signed sign
    ⟨(hshifted.abs_roundedMantissa_sub_le exponent).trans ?_, by positivity⟩
  rcases hnormal with hnormal | hmin
  · refine le_max_of_le_right ?_
    have hmantissa : (2 : ℚ) ^ (52 + amount) ≤ mantissa := mod_cast hnormal
    rw [abs_of_nonneg (by positivity)]
    calc (2 : ℚ) ^ (exponent + amount) / 2
      _ = 2 ^ (52 + amount) * 2 ^ exponent / 2 ^ 53 := by
        rw [add_comm, ← two_pow_mul_zpow, pow_add]
        ring
      _ ≤ mantissa * 2 ^ exponent / 2 ^ 53 := by gcongr
  · rw [hmin]
    exact le_max_left ..

/-- Decreasing the exponent of a number to the one that rounding gives it makes a canonical form. -/
theorem canonical_decreaseExponent {mantissa amount : Nat} {exponent place : Int}
    (hpositive : 0 < mantissa) (hplace : place = max (mantissa.log2 + exponent - 52) (-1074))
    (hamount : exponent - place = amount) : Canonical (mantissa * 2 ^ amount) place := by
  refine ⟨?_, by omega, ?_⟩
  · calc mantissa * 2 ^ amount
      _ < 2 ^ (mantissa.log2 + 1) * 2 ^ amount :=
        Nat.mul_lt_mul_of_pos_right Nat.lt_log2_self (Nat.two_pow_pos amount)
      _ = 2 ^ (mantissa.log2 + 1 + amount) := (Nat.pow_add ..).symm
      _ ≤ 2 ^ 53 := Nat.pow_le_pow_right two_pos (by omega)
  · by_cases hmin : place = -1074
    · exact .inr hmin
    · refine .inl ?_
      calc 2 ^ 52
        _ = 2 ^ (mantissa.log2 + amount) := by rw [show mantissa.log2 + amount = 52 by omega]
        _ = 2 ^ mantissa.log2 * 2 ^ amount := Nat.pow_add ..
        _ ≤ mantissa * 2 ^ amount := Nat.mul_le_mul_right _ (Nat.log2_self_le hpositive.ne')

theorem cast_mul_two_pow_mul_zpow (mantissa amount : ℕ) (place : ℤ) :
    ((mantissa * 2 ^ amount : ℕ) : ℚ) * 2 ^ place = mantissa * 2 ^ (place + amount) := by
  rw [add_comm, ← two_pow_mul_zpow]
  push_cast
  ring

theorem round_spec (sign : UnpackedFloat.Sign) {mantissa : Nat} (exponent : Int)
    (hpositive : 0 < mantissa) :
    IsRounding (UnpackedFloat.round Format.binary64 sign mantissa exponent)
        (signed sign (mantissa * 2 ^ exponent)) ∧
      (mantissa < 2 ^ 53 → -1074 ≤ exponent →
        rational (UnpackedFloat.round Format.binary64 sign mantissa exponent) =
          signed sign (mantissa * 2 ^ exponent)) := by
  rw [UnpackedFloat.round, targetExponent_eq, decreaseExponent]
  dsimp only
  generalize hplace : max ((mantissa.log2 : Int) + exponent - 52) (-1074) = place
  rcases lt_or_ge exponent place with hlt | hge
  · rw [Int.toNat_of_nonpos (by omega), Nat.shiftLeft_zero, Nat.cast_zero, sub_zero]
    refine ⟨isRounding_roundWithAccuracy sign hpositive (hplace ▸ hlt.le), fun hsmall hmin ↦ ?_⟩
    have hlog := (Nat.log2_lt hpositive.ne').mpr hsmall
    omega
  · obtain ⟨amount, hamount⟩ := Int.le.dest hge
    obtain rfl : exponent = place + amount := hamount.symm
    rw [add_sub_cancel_left, Int.toNat_natCast, add_sub_cancel_right, Nat.shiftLeft_eq]
    obtain ⟨hregular, heq⟩ := roundWithAccuracy_of_canonical sign
      (canonical_decreaseExponent hpositive hplace.symm (add_sub_cancel_left place _))
    rw [cast_mul_two_pow_mul_zpow] at heq
    exact ⟨.of_eq hregular heq, fun _ _ ↦ heq⟩

theorem normalize_spec (mantissa exponent : Int) :
    IsRounding (UnpackedFloat.normalize Format.binary64 mantissa exponent .positive)
        (mantissa * 2 ^ exponent) ∧
      (|mantissa| < 2 ^ 53 → -1074 ≤ exponent →
        rational (UnpackedFloat.normalize Format.binary64 mantissa exponent .positive) =
          mantissa * 2 ^ exponent) := by
  rcases lt_trichotomy mantissa 0 with hlt | rfl | hgt
  · obtain ⟨magnitude, rfl⟩ := Int.exists_eq_neg_ofNat hlt.le
    have hsigned : ((-magnitude : Int) : ℚ) * 2 ^ exponent =
        signed .negative (magnitude * 2 ^ exponent) := by
      rw [signed, Int.cast_neg, neg_mul, Int.cast_natCast]
    rw [UnpackedFloat.normalize, compare_lt_iff_lt.mpr hlt, hsigned, abs_neg, Nat.abs_cast]
    dsimp only
    rw [neg_neg, Int.toNat_natCast]
    obtain ⟨hrounding, hexact⟩ := @round_spec .negative magnitude exponent (by omega)
    exact ⟨hrounding, fun hsmall ↦ hexact (by omega)⟩
  · rw [UnpackedFloat.normalize, compare_eq_iff_eq.mpr rfl, Int.cast_zero, zero_mul]
    exact ⟨.of_eq (.zero _) rfl, fun _ _ ↦ rfl⟩
  · lift mantissa to ℕ using hgt.le
    rw [UnpackedFloat.normalize, compare_gt_iff_gt.mpr hgt, Nat.abs_cast, Int.cast_natCast]
    dsimp only
    rw [Int.toNat_natCast]
    obtain ⟨hrounding, hexact⟩ := @round_spec .positive mantissa exponent (by omega)
    exact ⟨hrounding, fun hsmall ↦ hexact (by omega)⟩

/-! ### Differences and products -/

/-- The exponent of the last place of an unpacked double. -/
def lastPlace : UnpackedFloat → Int
  | .finite _ _ exponent _ => exponent
  | _ => -1074

theorem Regular.le_lastPlace {unpacked : UnpackedFloat} (hregular : Regular unpacked) :
    -1074 ≤ lastPlace unpacked := by
  rcases hregular with sign | ⟨sign, hpositive, hcanonical⟩
  · exact le_refl (-1074)
  · exact hcanonical.le_exponent

/-- A double is less than what its bits can count. -/
theorem Regular.abs_lt {unpacked : UnpackedFloat} (hregular : Regular unpacked) :
    |rational unpacked| < 2 ^ 53 * 2 ^ lastPlace unpacked := by
  rcases hregular with sign | ⟨sign, hpositive, hcanonical⟩
  · rw [rational_zero, abs_zero]
    positivity
  · rw [abs_rational_finite]
    exact hcanonical.lt_zpow.trans_eq (two_pow_mul_zpow 53 _).symm

/-- A double has all its bits, or its last place is the least one. -/
theorem Regular.le_abs {unpacked : UnpackedFloat} (hregular : Regular unpacked)
    (hnormal : lastPlace unpacked ≠ -1074) :
    2 ^ 52 * 2 ^ lastPlace unpacked ≤ |rational unpacked| := by
  rcases hregular with sign | ⟨sign, hpositive, hcanonical⟩
  · exact absurd rfl hnormal
  · rw [abs_rational_finite]
    exact (two_pow_mul_zpow 52 _).trans_le (hcanonical.zpow_le hnormal)

theorem apply_decreaseExponent (sign : UnpackedFloat.Sign) (mantissa : Nat) {exponent place : Int}
    (hle : place ≤ exponent) :
    ((sign.apply (decreaseExponent mantissa exponent place).1 : Int) : ℚ) * 2 ^ place =
      signed sign (mantissa * 2 ^ exponent) := by
  obtain ⟨amount, rfl⟩ := Int.le.dest hle
  rw [decreaseExponent, add_sub_cancel_left, Int.toNat_natCast, Nat.shiftLeft_eq,
    ← cast_mul_two_pow_mul_zpow]
  cases sign
  · rw [UnpackedFloat.Sign.apply, signed, Int.cast_neg, Int.cast_natCast, neg_mul]
  · rfl

/-- A double is a multiple of its last place, and of every smaller one. -/
theorem Regular.exists_multiple {unpacked : UnpackedFloat} (hregular : Regular unpacked)
    {place : Int} (hle : place ≤ lastPlace unpacked) :
    ∃ multiple : ℤ, rational unpacked = multiple * 2 ^ place := by
  rcases hregular with sign | ⟨sign, hpositive, hcanonical⟩
  · exact ⟨0, by rw [rational_zero, Int.cast_zero, zero_mul]⟩
  · exact ⟨_, (apply_decreaseExponent sign _ hle).symm⟩

/-- The difference of two numbers other than zero, as a multiple of the smaller last place. -/
theorem sub_finite_spec (sign other : UnpackedFloat.Sign) {mantissa subtracted : Nat}
    {exponent place : Int} {hpositive : 0 < mantissa} {hother : 0 < subtracted}
    (hcanonical : Canonical mantissa exponent) (hsubtracted : Canonical subtracted place) :
    IsRounding (UnpackedFloat.sub Format.binary64 (.finite sign mantissa exponent hpositive)
        (.finite other subtracted place hother))
        (signed sign (mantissa * 2 ^ exponent) - signed other (subtracted * 2 ^ place)) ∧
      (|signed sign (mantissa * 2 ^ exponent) - signed other (subtracted * 2 ^ place)| <
          2 ^ 53 * 2 ^ min exponent place →
        rational (UnpackedFloat.sub Format.binary64 (.finite sign mantissa exponent hpositive)
          (.finite other subtracted place hother)) =
            signed sign (mantissa * 2 ^ exponent) - signed other (subtracted * 2 ^ place)) := by
  have hdifference := congrArg₂ (· - ·)
    (apply_decreaseExponent sign mantissa (min_le_left exponent place))
    (apply_decreaseExponent other subtracted (min_le_right exponent place))
  rw [← sub_mul, ← Int.cast_sub] at hdifference
  obtain ⟨hrounding, hexact⟩ := normalize_spec
    (sign.apply (decreaseExponent mantissa exponent (min exponent place)).1 -
      other.apply (decreaseExponent subtracted place (min exponent place)).1)
    (min exponent place)
  rw [hdifference] at hrounding hexact
  refine ⟨hrounding, fun hsmall ↦ hexact ?_ (le_min hcanonical.le_exponent
    hsubtracted.le_exponent)⟩
  have hpos : (0 : ℚ) < 2 ^ min exponent place := by positivity
  rw [← hdifference, abs_mul, abs_of_pos hpos, mul_lt_mul_iff_left₀ hpos] at hsmall
  exact mod_cast hsmall

theorem rational_finite_neg (sign : UnpackedFloat.Sign) {mantissa : Nat} {exponent : Int}
    {hpositive : 0 < mantissa} :
    rational (.finite (-sign) mantissa exponent hpositive) =
      -rational (.finite sign mantissa exponent hpositive) := by
  cases sign
  · exact (neg_neg _).symm
  · rfl

/-- A difference is rounded, and it is exact when the rounding has nothing to do. -/
theorem sub_spec {first second : UnpackedFloat} (hfirst : Regular first)
    (hsecond : Regular second) :
    IsRounding (UnpackedFloat.sub Format.binary64 first second)
        (rational first - rational second) ∧
      (|rational first - rational second| <
          2 ^ 53 * 2 ^ min (lastPlace first) (lastPlace second) →
        rational (UnpackedFloat.sub Format.binary64 first second) =
          rational first - rational second) := by
  rcases hfirst with sign | ⟨sign, hpositive, hcanonical⟩ <;>
    rcases hsecond with other | ⟨other, hother, hsubtracted⟩
  · have hzero : ∃ zero, UnpackedFloat.sub Format.binary64 (.zero sign) (.zero other) =
        .zero zero := by
      rw [UnpackedFloat.sub]
      split <;> exact ⟨_, rfl⟩
    obtain ⟨zero, hzero⟩ := hzero
    rw [hzero, rational_zero, rational_zero, rational_zero, sub_zero]
    exact ⟨.of_eq (.zero _) rfl, fun _ ↦ rfl⟩
  · rw [rational_zero, zero_sub, ← rational_finite_neg]
    exact ⟨.of_eq (.finite (-other) hother hsubtracted) rfl, fun _ ↦ rfl⟩
  · rw [rational_zero, sub_zero]
    exact ⟨.of_eq (.finite sign _ hcanonical) rfl, fun _ ↦ rfl⟩
  · exact sub_finite_spec sign other hcanonical hsubtracted

theorem isRounding_mul {first second : UnpackedFloat} (hfirst : Regular first)
    (hsecond : Regular second) :
    IsRounding (UnpackedFloat.mul Format.binary64 first second)
      (rational first * rational second) := by
  rcases hfirst with sign | ⟨sign, hpositive, hcanonical⟩ <;>
    rcases hsecond with other | ⟨other, hother, hmultiplied⟩
  · rw [rational_zero, zero_mul]
    exact .of_eq (.zero _) rfl
  · rw [rational_zero, zero_mul]
    exact .of_eq (.zero _) rfl
  · rw [rational_zero, mul_zero]
    exact .of_eq (.zero _) rfl
  · rename_i mantissa exponent multiplied place
    have hexact : rational (.finite sign mantissa exponent hpositive) *
        rational (.finite other multiplied place hother) =
          signed (sign * other) ((mantissa * multiplied : ℕ) * 2 ^ (exponent + place)) := by
      rw [rational, rational, ← signed_mul, zpow_add₀ two_ne_zero]
      congr 1
      push_cast
      ring
    rw [hexact]
    refine isRounding_roundWithAccuracy (sign * other) (Nat.mul_pos hpositive hother) ?_
    have hlog {factor : Nat} (hbits : 2 ^ 52 ≤ factor) (hle : factor ≤ mantissa * multiplied) :
        52 ≤ (mantissa * multiplied).log2 :=
      (Nat.le_log2 (Nat.mul_pos hpositive hother).ne').mpr (hbits.trans hle)
    rcases hcanonical.isNormal_or with hbits | rfl
    · have hfull := hlog hbits (Nat.le_mul_of_pos_right mantissa hother)
      omega
    · rcases hmultiplied.isNormal_or with hbits | rfl
      · have hfull := hlog hbits (Nat.le_mul_of_pos_left multiplied hpositive)
        omega
      · exact le_max_of_le_right (by decide)

/-! ### Doubles -/

/-- The largest double. -/
def maximum : ℚ := (2 ^ 53 - 1) * 2 ^ (971 : ℤ)

/-- A double that a rational number is rounded to. It is infinite only when the number is larger
than every double. -/
inductive Rounds (exact : ℚ) (number : Float) : Prop
  | finite (hfinite : number.isFinite) (hnear : Near (value number) exact)
  | overflow (hinfinite : number.isInf) (hlarge : maximum < |exact|)

/-- What is rounded to a number that overflows is larger than the largest double. -/
theorem Near.maximum_lt {rounded exact : ℚ} (hnear : Near rounded exact)
    (hlarge : 2 ^ (1024 : ℤ) ≤ |rounded|) : maximum < |exact| := by
  have hunit : (0 : ℚ) < 2 ^ (971 : ℤ) := by positivity
  have hpow : (2 : ℚ) ^ (1024 : ℤ) = 2 ^ 53 * 2 ^ (971 : ℤ) := (two_pow_mul_zpow 53 971).symm
  have hleast : least < 2 ^ (971 : ℤ) := zpow_lt_zpow_right₀ one_lt_two (by decide)
  by_contra hsmall
  rw [maximum, not_lt] at hsmall
  rw [hpow] at hlarge
  clear hpow
  generalize (2 : ℚ) ^ (971 : ℤ) = unit at *
  have hoff : max (least / 2) (|exact| / 2 ^ 53) < unit := by
    refine max_lt (by linarith) ?_
    rw [div_lt_iff₀ (by positivity)]
    linarith
  have hdistance := hnear.abs_sub_le
  have htriangle := abs_sub_abs_le_abs_sub rounded exact
  linarith

/-- A canonical form is packed to a double of the same value, or overflows. -/
theorem pack_cases {unpacked : UnpackedFloat} (hregular : Regular unpacked) :
    ((Float.ofModel (Float.Model.pack unpacked)).isFinite ∧
        value (Float.ofModel (Float.Model.pack unpacked)) = rational unpacked) ∨
      (Float.ofModel (Float.Model.pack unpacked)).isInf ∧ 2 ^ (1024 : ℤ) ≤ |rational unpacked| := by
  rcases unpack_pack hregular with ⟨_, hunpack⟩ | ⟨hlarge, sign, hunpack⟩
  · refine .inl ⟨?_, congrArg rational hunpack⟩
    show (Float.Model.pack unpacked).unpack.isFinite = true
    rw [hunpack]
    cases hregular <;> rfl
  · refine .inr ⟨?_, hlarge⟩
    show (Float.Model.pack unpacked).unpack.isInf = true
    rw [hunpack]
    rfl

theorem IsRounding.rounds {unpacked : UnpackedFloat} {exact : ℚ}
    (hrounding : IsRounding unpacked exact) :
    Rounds exact (Float.ofModel (Float.Model.pack unpacked)) := by
  rcases pack_cases hrounding.regular with ⟨hfinite, hvalue⟩ | ⟨hinfinite, hlarge⟩
  · exact .finite hfinite (hvalue ▸ hrounding.near)
  · exact .overflow hinfinite (hrounding.near.maximum_lt hlarge)

theorem unpack_of_isInf {number : Float} (hinfinite : number.isInf) :
    ∃ sign, number.toModel.unpack = .infinity sign := by
  change number.toModel.unpack.isInf = true at hinfinite
  cases hunpack : number.toModel.unpack with
  | infinity sign => exact ⟨sign, rfl⟩
  | _ => rw [hunpack] at hinfinite; cases hinfinite

theorem not_isInf_of_isFinite {number : Float} (hfinite : number.isFinite) :
    ¬ number.isInf := fun hinfinite ↦ by
  obtain ⟨sign, hunpack⟩ := unpack_of_isInf hinfinite
  change number.toModel.unpack.isFinite = true at hfinite
  rw [hunpack] at hfinite
  cases hfinite

section Operations

variable {first second : Float} (hfirst : first.isFinite) (hsecond : second.isFinite)

include hfirst hsecond

theorem rounds_mul : Rounds (value first * value second) (first * second) :=
  (isRounding_mul (regular_of_isFinite hfirst) (regular_of_isFinite hsecond)).rounds

theorem rounds_sub : Rounds (value first - value second) (first - second) :=
  (sub_spec (regular_of_isFinite hfirst) (regular_of_isFinite hsecond)).1.rounds

/-- A difference is exact when it has no more bits than a double keeps. -/
theorem value_sub_of_lt (hdifference : (first - second).isFinite)
    (hlt : |value first - value second| <
      2 ^ 53 * 2 ^ min (lastPlace first.toModel.unpack) (lastPlace second.toModel.unpack)) :
    value (first - second) = value first - value second := by
  have ⟨hrounding, hexact⟩ :=
    sub_spec (regular_of_isFinite hfirst) (regular_of_isFinite hsecond)
  rcases pack_cases hrounding.regular with ⟨_, hvalue⟩ | ⟨hinfinite, _⟩
  · exact hvalue.trans (hexact hlt)
  · exact absurd hinfinite (not_isInf_of_isFinite hdifference)

/-- A difference of at most either number is exact. -/
theorem value_sub_of_le (hdifference : (first - second).isFinite)
    (hle : |value first - value second| ≤ |value first|)
    (hle' : |value first - value second| ≤ |value second|) :
    value (first - second) = value first - value second := by
  refine value_sub_of_lt hfirst hsecond hdifference ?_
  rcases min_choice (lastPlace first.toModel.unpack) (lastPlace second.toModel.unpack) with
    hmin | hmin <;> rw [hmin]
  · exact hle.trans_lt (regular_of_isFinite hfirst).abs_lt
  · exact hle'.trans_lt (regular_of_isFinite hsecond).abs_lt

/-- A difference with no more bits than a double keeps, counted from the least place, is exact. -/
theorem value_sub_of_lt_least (hdifference : (first - second).isFinite)
    (hlt : |value first - value second| < 2 ^ 53 * least) :
    value (first - second) = value first - value second := by
  refine value_sub_of_lt hfirst hsecond hdifference (hlt.trans_le ?_)
  have hplace : least ≤ 2 ^ min (lastPlace first.toModel.unpack)
      (lastPlace second.toModel.unpack) :=
    zpow_le_zpow_right₀ one_le_two (le_min (regular_of_isFinite hfirst).le_lastPlace
      (regular_of_isFinite hsecond).le_lastPlace)
  gcongr

end Operations

theorem maximum_lt : maximum < 2 ^ (1024 : ℤ) := by
  have hunit : (0 : ℚ) < 2 ^ (971 : ℤ) := by positivity
  calc maximum
    _ < 2 ^ 53 * 2 ^ (971 : ℤ) := mul_lt_mul_of_pos_right (by norm_num) hunit
    _ = 2 ^ (1024 : ℤ) := two_pow_mul_zpow 53 971

theorem maximum_nonneg : 0 ≤ maximum :=
  mul_nonneg (by norm_num) (by positivity)

theorem abs_value_le (number : Float) : |value number| ≤ maximum := by
  rw [value]
  cases hunpack : number.toModel.unpack with
  | finite sign mantissa exponent hpositive =>
    obtain ⟨hcanonical, hexponent⟩ := canonical_of_unpack hunpack
    have hmantissa : (mantissa : ℚ) ≤ 2 ^ 53 - 1 := by
      rw [le_sub_iff_add_le]
      exact mod_cast hcanonical.mantissa_lt
    rw [abs_rational_finite]
    exact mul_le_mul hmantissa (zpow_le_zpow_right₀ one_le_two hexponent) (by positivity)
      (by norm_num)
  | _ => exact abs_zero.trans_le maximum_nonneg

theorem Regular.abs {unpacked : UnpackedFloat} (hregular : Regular unpacked) :
    Regular unpacked.abs ∧ rational unpacked.abs = |rational unpacked| := by
  rcases hregular with sign | ⟨sign, hpositive, hcanonical⟩
  · exact ⟨.zero _, abs_zero.symm⟩
  · exact ⟨.finite .positive hpositive hcanonical, abs_rational_finite.symm⟩

theorem abs_spec {number : Float} (hfinite : number.isFinite) :
    number.abs.isFinite ∧ value number.abs = |value number| := by
  obtain ⟨hregular, habs⟩ := (regular_of_isFinite hfinite).abs
  rcases pack_cases hregular with ⟨hfits, hvalue⟩ | ⟨_, hlarge⟩
  · exact ⟨hfits, hvalue.trans habs⟩
  · rw [habs, abs_abs] at hlarge
    exact absurd ((abs_value_le number).trans_lt maximum_lt) hlarge.not_gt

theorem larger_spec {first second : Float} (hfirst : first.isFinite) (hsecond : second.isFinite) :
    (larger first second).isFinite ∧
      value (larger first second) = max (value first) (value second) := by
  rw [larger]
  split
  · next hlt => exact ⟨hsecond, (max_eq_right ((lt_iff hfirst hsecond).mp hlt).le).symm⟩
  · next hge =>
    exact ⟨hfirst, (max_eq_left (not_lt.mp (mt (lt_iff hfirst hsecond).mpr hge))).symm⟩

/-! ### Infinity -/

theorem sub_infinity (sign : UnpackedFloat.Sign) {unpacked : UnpackedFloat}
    (hregular : Regular unpacked) :
    UnpackedFloat.sub Format.binary64 (.infinity sign) unpacked = .infinity sign := by
  cases hregular <;> rfl

theorem compare_infinity {unpacked : UnpackedFloat} (hregular : Regular unpacked) :
    UnpackedFloat.compare (.infinity .positive) unpacked = some .gt := by
  cases hregular <;> rfl

theorem unpack_abs_of_infinity {number : Float} {sign : UnpackedFloat.Sign}
    (hunpack : number.toModel.unpack = .infinity sign) :
    number.abs.toModel.unpack = .infinity .positive := by
  show (Float.Model.pack number.toModel.unpack.abs).unpack = _
  rw [hunpack]
  exact unpack_pack_infinity .positive

end Metrology.Real64
