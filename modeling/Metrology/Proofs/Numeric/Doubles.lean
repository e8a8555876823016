import Mathlib

/-!
# Doubles as rational numbers

A finite double is a rational number, its `value`. The mantissa and the exponent of a double are
those of its fields (`unpack_eq_ofFields`), in a canonical form that packing and unpacking keep as
long as the number is not too large (`unpack_pack`). In this form the order of doubles is the order
of their values (`le_iff`, `lt_iff`).
-/

set_option autoImplicit false
set_option relaxedAutoImplicit false

namespace Metrology.Real64

open Float.Model Float.Model.UnpackedFloat

/-! ### Fields -/

/-- The form in which the mantissa and the exponent of a double are kept: the mantissa has all its
bits, or the exponent is the least one. -/
structure Canonical (mantissa : Nat) (exponent : Int) : Prop where
  mantissa_lt : mantissa < 2 ^ 53
  le_exponent : -1074 ≤ exponent
  isNormal_or : 2 ^ 52 ≤ mantissa ∨ exponent = -1074

theorem toNat_append_one (fraction : BitVec 52) :
    (1#1 ++ fraction).toNat = 2 ^ 52 + fraction.toNat := by
  rw [BitVec.toNat_append, ← Nat.shiftLeft_add_eq_or_of_lt fraction.isLt]
  rfl

/-- The double with given fields. -/
def ofFields (sign : UnpackedFloat.Sign) (biased : BitVec 11) (fraction : BitVec 52) :
    UnpackedFloat :=
  if biased = -1#11 then if fraction = 0#52 then .infinity sign else .notANumber
  else if biased = 0#11 then
    if hzero : fraction = 0#52 then .zero sign
    else .finite sign fraction.toNat (biased.toNat - 1075 + 1)
      (by simpa [BitVec.toNat_pos, BitVec.pos_iff_ne_zero])
  else .finite sign (1#1 ++ fraction).toNat (biased.toNat - 1075) (by rw [toNat_append_one]; omega)

theorem unpack_eq_ofFields (model : Float.Model) :
    ∃ sign biased fraction, model.unpack = ofFields sign biased fraction :=
  ⟨_, _, _, rfl⟩

theorem unpack_packComponents (sign : UnpackedFloat.Sign) (biased : BitVec 11)
    (fraction : BitVec 52) :
    UnpackedFloat.unpack Format.binary64 (packComponents Format.binary64 sign biased fraction) =
      ofFields sign biased fraction := by
  simp only [UnpackedFloat.unpack, unpackMantissa_packComponents, unpackExponent_packComponents,
    unpackSign_packComponents, UnpackedFloat.Sign.ofBitVec_toBitVec]
  rfl

theorem finite_congr {sign : UnpackedFloat.Sign} {mantissa other : Nat} {exponent place : Int}
    {hmantissa : 0 < mantissa} {hother : 0 < other} (heq : mantissa = other)
    (hexponent : exponent = place) :
    UnpackedFloat.finite sign mantissa exponent hmantissa = .finite sign other place hother := by
  subst heq hexponent
  rfl

theorem ofFields_normal {sign : UnpackedFloat.Sign} {biased : BitVec 11} {fraction : BitVec 52}
    {mantissa : Nat} {exponent : Int} {hpositive : 0 < mantissa}
    (hfraction : 2 ^ 52 + fraction.toNat = mantissa)
    (hexponent : biased.toNat - 1075 = exponent) (hmin : -1074 ≤ exponent) (hmax : exponent ≤ 971) :
    ofFields sign biased fraction = .finite sign mantissa exponent hpositive := by
  have hfinite : biased ≠ -1#11 := by
    rintro rfl
    change (2047 : Int) - 1075 = exponent at hexponent
    omega
  have hnormal : biased ≠ 0#11 := by
    rintro rfl
    change (0 : Int) - 1075 = exponent at hexponent
    omega
  rw [ofFields, if_neg hfinite, if_neg hnormal]
  exact finite_congr ((toNat_append_one fraction).trans hfraction) hexponent

theorem ofFields_subnormal {sign : UnpackedFloat.Sign} {fraction : BitVec 52} {mantissa : Nat}
    {hpositive : 0 < mantissa} (hfraction : fraction.toNat = mantissa) :
    ofFields sign 0#11 fraction = .finite sign mantissa (-1074) hpositive := by
  have hzero : fraction ≠ 0#52 := by
    rintro rfl
    exact hpositive.ne hfraction
  rw [ofFields, if_neg (by decide), if_pos rfl, dif_neg hzero]
  exact finite_congr hfraction rfl

/-- What is unpacked is in canonical form. -/
theorem canonical_of_unpack {model : Float.Model} {sign : UnpackedFloat.Sign} {mantissa : Nat}
    {exponent : Int} {hpositive : 0 < mantissa}
    (hunpack : model.unpack = .finite sign mantissa exponent hpositive) :
    Canonical mantissa exponent ∧ exponent ≤ 971 := by
  obtain ⟨_, biased, fraction, heq⟩ := unpack_eq_ofFields model
  rw [heq, ofFields] at hunpack
  have hfraction := fraction.isLt
  have hbiased := biased.isLt
  have hmantissa := toNat_append_one fraction
  by_cases hinfinite : biased = -1#11
  · rw [if_pos hinfinite] at hunpack
    split at hunpack <;> cases hunpack
  · have hlt : biased.toNat ≠ 2047 := fun hmax ↦ hinfinite (BitVec.eq_of_toNat_eq hmax)
    rw [if_neg hinfinite] at hunpack
    by_cases hzero : biased = 0#11
    · rw [if_pos hzero] at hunpack
      split at hunpack
      · cases hunpack
      · cases hunpack
        subst hzero
        exact ⟨⟨by omega, by decide, .inr rfl⟩, by decide⟩
    · have hpos : biased.toNat ≠ 0 := fun hmin ↦ hzero (BitVec.eq_of_toNat_eq hmin)
      rw [if_neg hzero] at hunpack
      cases hunpack
      exact ⟨⟨by omega, by omega, .inl (by omega)⟩, by omega⟩

theorem unpack_pack_zero (sign : UnpackedFloat.Sign) :
    (Float.Model.pack (.zero sign)).unpack = .zero sign :=
  unpack_packComponents sign 0#11 0#52

theorem unpack_pack_infinity (sign : UnpackedFloat.Sign) :
    (Float.Model.pack (.infinity sign)).unpack = .infinity sign :=
  unpack_packComponents sign (-1#11) 0#52

theorem pack_finite (sign : UnpackedFloat.Sign) (mantissa : Nat) (exponent : Int)
    (hpositive : 0 < mantissa) :
    UnpackedFloat.pack Format.binary64 (.finite sign mantissa exponent hpositive) =
      if 2 ^ 11 ≤ (exponent + (1023 : Nat) + (52 : Nat)).toNat + 1 then
        packComponents Format.binary64 sign (-1#11) 0#52
      else if mantissa.log2 + 1 = 53 then
        packComponents Format.binary64 sign
          (BitVec.ofNat 11 (exponent + (1023 : Nat) + (52 : Nat)).toNat) (BitVec.ofNat 52 mantissa)
      else packComponents Format.binary64 sign 0#11 (BitVec.ofNat 52 mantissa) :=
  rfl

/-- Packing keeps a canonical form, or overflows. -/
theorem unpack_pack_finite {sign : UnpackedFloat.Sign} {mantissa : Nat} {exponent : Int}
    {hpositive : 0 < mantissa} (hcanonical : Canonical mantissa exponent) :
    (Float.Model.pack (.finite sign mantissa exponent hpositive)).unpack =
      if exponent ≤ 971 then .finite sign mantissa exponent hpositive else .infinity sign := by
  obtain ⟨hlt, hle, hnormal⟩ := hcanonical
  have hlog := (Nat.log2_lt hpositive.ne').mpr hlt
  show UnpackedFloat.unpack Format.binary64 (UnpackedFloat.pack Format.binary64 _) = _
  rw [pack_finite]
  by_cases hfits : exponent ≤ 971
  · rw [if_neg (by omega), if_pos hfits]
    by_cases hlarge : 2 ^ 52 ≤ mantissa
    · have hbits := (Nat.le_log2 hpositive.ne').mpr hlarge
      rw [if_pos (by omega), unpack_packComponents]
      refine ofFields_normal ?_ ?_ hle hfits
      · rw [BitVec.toNat_ofNat]
        omega
      · rw [BitVec.toNat_ofNat]
        omega
    · have hbits := (Nat.log2_lt hpositive.ne').mpr (Nat.not_le.mp hlarge)
      obtain rfl := hnormal.resolve_left hlarge
      rw [if_neg (by omega), unpack_packComponents]
      refine ofFields_subnormal ?_
      rw [BitVec.toNat_ofNat]
      omega
  · rw [if_pos (by omega), if_neg hfits]
    exact unpack_packComponents sign (-1#11) 0#52

/-! ### Values -/

/-- A rational number with a sign. -/
def signed : UnpackedFloat.Sign → ℚ → ℚ
  | .negative, magnitude => -magnitude
  | .positive, magnitude => magnitude

theorem abs_signed (sign : UnpackedFloat.Sign) (magnitude : ℚ) :
    |signed sign magnitude| = |magnitude| := by
  cases sign
  · exact abs_neg magnitude
  · rfl

theorem signed_sub (sign : UnpackedFloat.Sign) (first second : ℚ) :
    signed sign first - signed sign second = signed sign (first - second) := by
  cases sign
  · exact (neg_sub_neg first second).trans (neg_sub first second).symm
  · rfl

theorem signed_mul (sign other : UnpackedFloat.Sign) (first second : ℚ) :
    signed (sign * other) (first * second) = signed sign first * signed other second := by
  cases sign <;> cases other
  · exact (neg_mul_neg first second).symm
  · exact (neg_mul first second).symm
  · exact (mul_neg first second).symm
  · rfl

/-- The rational number that an unpacked double is; zero when it is none. -/
def rational : UnpackedFloat → ℚ
  | .finite sign mantissa exponent _ => signed sign (mantissa * 2 ^ exponent)
  | _ => 0

/-- The rational number that a finite double is. -/
def value (number : Float) : ℚ :=
  rational number.toModel.unpack

@[simp] theorem rational_zero (sign : UnpackedFloat.Sign) : rational (.zero sign) = 0 := rfl

/-- An unpacked finite double in canonical form, as rounding gives it. It is a double unless its
exponent is too large. -/
inductive Regular : UnpackedFloat → Prop
  | zero (sign : UnpackedFloat.Sign) : Regular (.zero sign)
  | finite (sign : UnpackedFloat.Sign) {mantissa : Nat} {exponent : Int} (hpositive : 0 < mantissa)
      (hcanonical : Canonical mantissa exponent) :
      Regular (.finite sign mantissa exponent hpositive)

theorem regular_of_isFinite {number : Float} (hfinite : number.isFinite) :
    Regular number.toModel.unpack := by
  change number.toModel.unpack.isFinite = true at hfinite
  cases hunpack : number.toModel.unpack with
  | infinity sign => rw [hunpack] at hfinite; cases hfinite
  | notANumber => rw [hunpack] at hfinite; cases hfinite
  | zero sign => exact .zero sign
  | finite sign mantissa exponent hpositive =>
    exact .finite sign hpositive (canonical_of_unpack hunpack).1

theorem two_pow_mul_zpow (power : ℕ) (exponent : ℤ) :
    (2 : ℚ) ^ power * 2 ^ exponent = 2 ^ (power + exponent) := by
  rw [zpow_add₀ two_ne_zero, zpow_natCast]

theorem Canonical.lt_zpow {mantissa : Nat} {exponent : Int}
    (hcanonical : Canonical mantissa exponent) :
    (mantissa : ℚ) * 2 ^ exponent < 2 ^ (53 + exponent) := by
  have hmantissa : (mantissa : ℚ) < 2 ^ 53 := mod_cast hcanonical.mantissa_lt
  calc (mantissa : ℚ) * 2 ^ exponent
    _ < 2 ^ 53 * 2 ^ exponent := by gcongr
    _ = 2 ^ (53 + exponent) := two_pow_mul_zpow 53 exponent

theorem Canonical.zpow_le {mantissa : Nat} {exponent : Int}
    (hcanonical : Canonical mantissa exponent) (hnormal : exponent ≠ -1074) :
    (2 : ℚ) ^ (52 + exponent) ≤ mantissa * 2 ^ exponent := by
  have hmantissa : (2 : ℚ) ^ 52 ≤ mantissa :=
    mod_cast hcanonical.isNormal_or.resolve_right hnormal
  calc (2 : ℚ) ^ (52 + exponent)
    _ = 2 ^ 52 * 2 ^ exponent := (two_pow_mul_zpow 52 exponent).symm
    _ ≤ mantissa * 2 ^ exponent := by gcongr

/-- A canonical form with a larger exponent is a larger number. -/
theorem Canonical.lt_of_exponent_lt {mantissa other : Nat} {exponent place : Int}
    (hcanonical : Canonical mantissa exponent) (hother : Canonical other place)
    (hlt : exponent < place) : (mantissa : ℚ) * 2 ^ exponent < other * 2 ^ place := by
  have hmin := hcanonical.le_exponent
  calc (mantissa : ℚ) * 2 ^ exponent
    _ < 2 ^ (53 + exponent) := hcanonical.lt_zpow
    _ ≤ 2 ^ (52 + place) := zpow_le_zpow_right₀ one_le_two (by omega)
    _ ≤ other * 2 ^ place := hother.zpow_le (by omega)

theorem Canonical.compare_eq {mantissa other : Nat} {exponent place : Int}
    (hcanonical : Canonical mantissa exponent) (hother : Canonical other place) :
    (compare exponent place).then (compare mantissa other) =
      compare ((mantissa : ℚ) * 2 ^ exponent) (other * 2 ^ place) := by
  rcases lt_trichotomy exponent place with hlt | rfl | hgt
  · rw [compare_lt_iff_lt.mpr hlt,
      compare_lt_iff_lt.mpr (hcanonical.lt_of_exponent_lt hother hlt), Ordering.lt_then]
  · have hpos : (0 : ℚ) < 2 ^ exponent := by positivity
    rw [compare_eq_iff_eq.mpr rfl, Ordering.eq_then]
    rcases lt_trichotomy mantissa other with hlt | rfl | hgt
    · rw [compare_lt_iff_lt.mpr hlt, eq_comm, compare_lt_iff_lt, mul_lt_mul_iff_left₀ hpos]
      exact mod_cast hlt
    · rw [compare_eq_iff_eq.mpr rfl, compare_eq_iff_eq.mpr rfl]
    · rw [compare_gt_iff_gt.mpr hgt, eq_comm, compare_gt_iff_gt, mul_lt_mul_iff_left₀ hpos]
      exact mod_cast hgt
  · rw [compare_gt_iff_gt.mpr hgt,
      compare_gt_iff_gt.mpr (hother.lt_of_exponent_lt hcanonical hgt), Ordering.gt_then]

theorem compare_neg_neg (first second : ℚ) :
    compare (-first) (-second) = (compare first second).swap := by
  rcases lt_trichotomy first second with hlt | rfl | hgt
  · rw [compare_lt_iff_lt.mpr hlt, compare_gt_iff_gt.mpr (neg_lt_neg hlt)]
    rfl
  · rw [compare_eq_iff_eq.mpr rfl, compare_eq_iff_eq.mpr rfl]
    rfl
  · rw [compare_gt_iff_gt.mpr hgt, compare_lt_iff_lt.mpr (neg_lt_neg hgt)]
    rfl

/-- Doubles compare as their values. -/
theorem compare_eq {first second : UnpackedFloat} (hfirst : Regular first)
    (hsecond : Regular second) :
    first.compare second = some (compare (rational first) (rational second)) := by
  have hpos {mantissa : Nat} (exponent : Int) (hpositive : 0 < mantissa) :
      (0 : ℚ) < mantissa * 2 ^ exponent := by positivity
  rcases hfirst with sign | ⟨_ | _, hpositive, hcanonical⟩ <;>
    rcases hsecond with other | ⟨_ | _, hother, hcompared⟩ <;>
    simp only [UnpackedFloat.compare, rational, signed, Option.some.injEq]
  case zero.zero => exact (compare_eq_iff_eq.mpr rfl).symm
  case zero.finite.negative => exact (compare_gt_iff_gt.mpr (neg_neg_of_pos (hpos _ hother))).symm
  case zero.finite.positive => exact (compare_lt_iff_lt.mpr (hpos _ hother)).symm
  case finite.negative.zero =>
    exact (compare_lt_iff_lt.mpr (neg_neg_of_pos (hpos _ hpositive))).symm
  case finite.positive.zero => exact (compare_gt_iff_gt.mpr (hpos _ hpositive)).symm
  case finite.negative.finite.negative =>
    rw [compare_neg_neg, hcanonical.compare_eq hcompared]
  case finite.negative.finite.positive =>
    exact (compare_lt_iff_lt.mpr
      ((neg_neg_of_pos (hpos _ hpositive)).trans (hpos _ hother))).symm
  case finite.positive.finite.negative =>
    exact (compare_gt_iff_gt.mpr
      ((neg_neg_of_pos (hpos _ hother)).trans (hpos _ hpositive))).symm
  case finite.positive.finite.positive => exact hcanonical.compare_eq hcompared

theorem le_iff_compare (first second : Float) : first ≤ second ↔
    (first.toModel.unpack.compare second.toModel.unpack).any (·.isLE) = true :=
  decide_eq_true_iff

theorem lt_iff_compare (first second : Float) : first < second ↔
    (first.toModel.unpack.compare second.toModel.unpack == some .lt) = true :=
  decide_eq_true_iff

/-- The order of finite doubles is the order of their values. -/
theorem le_iff {first second : Float} (hfirst : first.isFinite) (hsecond : second.isFinite) :
    first ≤ second ↔ value first ≤ value second := by
  rw [le_iff_compare, compare_eq (regular_of_isFinite hfirst) (regular_of_isFinite hsecond),
    Option.any_some, Ordering.isLE_iff_ne_gt]
  exact compare_le_iff_le

theorem lt_iff {first second : Float} (hfirst : first.isFinite) (hsecond : second.isFinite) :
    first < second ↔ value first < value second := by
  rw [lt_iff_compare, compare_eq (regular_of_isFinite hfirst) (regular_of_isFinite hsecond),
    beq_iff_eq, Option.some.injEq, compare_lt_iff_lt]
  rfl

/-! ### Packing -/

theorem abs_rational_finite {sign : UnpackedFloat.Sign} {mantissa : Nat} {exponent : Int}
    {hpositive : 0 < mantissa} :
    |rational (.finite sign mantissa exponent hpositive)| = mantissa * 2 ^ exponent := by
  rw [rational, abs_signed, abs_of_nonneg (by positivity)]

/-- Packing and unpacking keep a canonical form, or overflow. -/
theorem unpack_pack {unpacked : UnpackedFloat} (hregular : Regular unpacked) :
    (|rational unpacked| < 2 ^ (1024 : ℤ) ∧ (Float.Model.pack unpacked).unpack = unpacked) ∨
      2 ^ (1024 : ℤ) ≤ |rational unpacked| ∧
        ∃ sign, (Float.Model.pack unpacked).unpack = .infinity sign := by
  rcases hregular with sign | ⟨sign, hpositive, hcanonical⟩
  · refine .inl ⟨?_, unpack_pack_zero sign⟩
    rw [rational_zero, abs_zero]
    positivity
  · rename_i mantissa exponent
    rw [abs_rational_finite, unpack_pack_finite hcanonical]
    by_cases hfits : exponent ≤ 971
    · refine .inl ⟨hcanonical.lt_zpow.trans_le ?_, if_pos hfits⟩
      exact zpow_le_zpow_right₀ one_le_two (by omega)
    · refine .inr ⟨le_trans ?_ (hcanonical.zpow_le (by omega)), sign, if_neg hfits⟩
      exact zpow_le_zpow_right₀ one_le_two (by omega)

end Metrology.Real64
