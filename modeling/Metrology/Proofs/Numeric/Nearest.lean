import Metrology.Proofs.Numeric.Ranges

/-!
# Integers as doubles

The rank of a double is its significand and its exponent field (`Real64.unpack_ofRank`). An integer
of at most 53 binary digits is a double itself, and the double nearest to a larger one is no smaller
than `2 ^ 53` (`Binary64.exists_nearest`). Whether an integer is too large for an exponent can be
told therefore from its nearest double, and an integer that is not is found again by cutting off the
fraction of this double, of which there is none (`Numeral.exponent?_convert`).
-/

set_option autoImplicit false
set_option relaxedAutoImplicit false

namespace Metrology

/-! ### The double of a rank -/

namespace Real64

open Float.Model Float.Model.UnpackedFloat

/-- The sign of a double that is negative or not. -/
def signOf (negative : Bool) : UnpackedFloat.Sign :=
  if negative then .negative else .positive

/-- The bits of the double of a rank are the rank and a bit for the sign. -/
theorem exists_ofBits_ofRank (negative : Bool) {rank : Nat} (hrank : rank < Binary64.infinityBits) :
    ∃ bits : UInt64, Binary64.ofRank negative rank = Float.ofBits bits ∧
      bits.toNat = (if negative then 2 ^ 63 else 0) + rank := by
  have hinfinity : Binary64.infinityBits = 2047 * 4503599627370496 := rfl
  have hsize : UInt64.size = 18446744073709551616 := rfl
  rw [Binary64.ofRank, Nat.min_eq_left hrank.le]
  refine ⟨_, rfl, ?_⟩
  rw [Nat.toUInt64_eq, UInt64.toNat_ofNat_of_lt']
  · rfl
  · show (if negative then 2 ^ 63 else 0) + rank < _
    split <;> omega

/-- The double with a rank, without packing. -/
theorem unpack_ofRank (negative : Bool) {significand : Nat} {place : Int}
    (hpositive : 0 < significand) (hcanonical : Canonical significand place) (hmax : place ≤ 971) :
    (Binary64.ofRank negative (significand + (place + 1074).toNat * 2 ^ 52)).toModel.unpack =
      .finite (signOf negative) significand place hpositive := by
  obtain ⟨hlt, hle, hnormal⟩ := hcanonical
  have hinfinity : Binary64.infinityBits = 2047 * 4503599627370496 := rfl
  obtain ⟨bits, hbits, hnat⟩ := @exists_ofBits_ofRank negative
    (significand + (place + 1074).toNat * 2 ^ 52) (by omega)
  obtain ⟨sign, biased, fraction, hunpack, hsign, hbiased, hfraction⟩ :=
    unpack_eq_ofFields_bits bits
  have hsigned : sign = signOf negative := by
    rw [hsign, signOf]
    cases negative
    · exact if_neg (by simp only [Bool.false_eq_true, if_false] at hnat; omega)
    · exact if_pos (by simp only [if_true] at hnat; omega)
  have hfields : biased.toNat = (significand + (place + 1074).toNat * 2 ^ 52) / 2 ^ 52 ∧
      fraction.toNat = (significand + (place + 1074).toNat * 2 ^ 52) % 2 ^ 52 := by
    rw [hbiased, hfraction, hnat]
    split <;> omega
  have hfinite : UnpackedFloat.unpack Format.binary64 bits.toBitVec =
      .finite (signOf negative) significand place hpositive := by
    rw [hunpack, hsigned]
    by_cases hlarge : 2 ^ 52 ≤ significand
    · exact ofFields_normal (by omega) (by omega) hle hmax
    · obtain rfl := hnormal.resolve_left hlarge
      obtain rfl : biased = 0#11 := BitVec.eq_of_toNat_eq (by rw [hfields.1]; simp; omega)
      exact ofFields_subnormal (by omega)
  rw [hbits]
  show (Float.Model.pack (UnpackedFloat.unpack Format.binary64 bits.toBitVec)).unpack = _
  rw [hfinite, unpack_pack_finite ⟨hlt, hle, hnormal⟩, if_pos hmax]

/-- A significand of 53 binary digits may be rounded up to the next power of two. The rank then is
that of the form with half the significand. -/
theorem exists_canonical_of_le {significand : Nat} {place : Int} (hlarge : 2 ^ 52 ≤ significand)
    (hle : significand ≤ 2 ^ 53) (hplace : -1074 ≤ place) :
    ∃ mantissa exponent, 0 < mantissa ∧ Canonical mantissa exponent ∧
      mantissa + (exponent + 1074).toNat * 2 ^ 52 = significand + (place + 1074).toNat * 2 ^ 52 ∧
      (mantissa * 2 ^ exponent : ℚ) = significand * 2 ^ place := by
  rcases hle.lt_or_eq with hlt | rfl
  · exact ⟨significand, place, by omega, ⟨hlt, hplace, .inl hlarge⟩, rfl, rfl⟩
  · refine ⟨2 ^ 52, place + 1, by decide, ⟨by decide, by omega, .inl (by decide)⟩, by omega, ?_⟩
    rw [Nat.cast_pow, Nat.cast_pow, Nat.cast_ofNat, two_pow_mul_zpow, two_pow_mul_zpow]
    exact congrArg _ (by omega)

/-! ### Integers from doubles -/

/-- The integer that is left of a double when its fraction is cut off. It is zero for an infinity
and for what is no number. -/
def integerPart (number : Float) : Int :=
  number.toModel.unpack.toInt 0 0

theorem roundToInt_of_eq {sign : UnpackedFloat.Sign} {mantissa : Nat} {exponent : Int}
    {magnitude : Nat} (hmagnitude : (mantissa * 2 ^ exponent : ℚ) = magnitude) :
    UnpackedFloat.roundToInt sign mantissa exponent = sign.apply magnitude := by
  have hscaled : mantissa * 2 ^ exponent.toNat = 2 ^ (-exponent).toNat * magnitude := by
    have hratio := congrArg (· * (2 : ℚ) ^ (-exponent).toNat) hmagnitude
    simp only [mul_assoc, zpow_mul_pow_toNat two_ne_zero, mul_comm (magnitude : ℚ)] at hratio
    exact mod_cast hratio
  have hplace : 0 - (exponent - (exponent.toNat : ℤ)) = ((-exponent).toNat : ℤ) := by omega
  obtain ⟨rest, hlt, heq, _⟩ := exists_shifted (mantissa * 2 ^ exponent.toNat) (-exponent).toNat
  simp only [UnpackedFloat.roundToInt, UnpackedFloat.decreaseExponent,
    UnpackedFloat.shiftToExponent, Int.sub_zero, hplace, Int.toNat_natCast, Nat.shiftLeft_eq]
  generalize (ExtendedMantissa.ofMantissaAndAccuracy (mantissa * 2 ^ exponent.toNat) .exact >>>
    (-exponent).toNat).mantissa = whole at *
  have hunit : 0 < 2 ^ (-exponent).toNat := by positivity
  have hwhole : whole = magnitude := by
    have hdiv := congrArg (· / 2 ^ (-exponent).toNat) (heq.symm.trans hscaled)
    simpa only [Nat.mul_add_div hunit, Nat.div_eq_of_lt hlt, Nat.add_zero,
      Nat.mul_div_cancel_left magnitude hunit] using hdiv
  rw [hwhole]

theorem signed_natCast (sign : UnpackedFloat.Sign) (number : Nat) :
    signed sign number = (sign.apply number : Int) := by
  cases sign
  · exact (Int.cast_neg _).symm
  · rfl

/-- A double that is an integer has no fraction to be cut off. -/
theorem integerPart_of_value {number : Float} (hfinite : number.isFinite) {integer : Int}
    (hvalue : value number = integer) : integerPart number = integer := by
  have hregular := regular_of_isFinite hfinite
  rw [value] at hvalue
  rw [integerPart]
  generalize number.toModel.unpack = unpacked at *
  cases hregular with
  | zero sign =>
    rw [rational_zero, eq_comm, Int.cast_eq_zero] at hvalue
    exact hvalue.symm
  | @finite sign mantissa exponent hpositive _ =>
    have hmagnitude : (mantissa * 2 ^ exponent : ℚ) = integer.natAbs := by
      rw [← @abs_rational_finite sign mantissa exponent hpositive, hvalue, ← Int.cast_abs,
        Int.abs_eq_natAbs, Int.cast_natCast]
    rw [rational, hmagnitude, signed_natCast, Int.cast_inj] at hvalue
    exact (roundToInt_of_eq hmagnitude).trans hvalue

/-- The exponent that a double is cut off to, unless it is larger than the largest exponent. -/
def exponent? (number : Float) : Option Int :=
  if (2147483647 : Float) < number.abs then none else some (integerPart number)

end Real64

/-! ### The double nearest to an integer -/

open Real64

namespace Binary64

/-- The double nearest to an integer is the integer itself, unless this has more than 53 binary
digits, and then the double has as well. -/
structure IsNearest (number : Nat) (magnitude : ℚ) : Prop where
  eq_of_lt : number < 2 ^ 53 → magnitude = number
  le_of_le : 2 ^ 53 ≤ number → 2 ^ 53 ≤ magnitude

/-- The bits of the double nearest to an integer: its significand has 53 binary digits, or it is the
next power of two after rounding. -/
structure IsSignificand (number significand : Nat) (place : Int) : Prop where
  isExponent : IsExponent 2 number (place + 52)
  roundsTo : RoundsTo (number / 2 ^ place) significand
  place_le : -52 ≤ place
  le : 2 ^ 52 ≤ significand
  ge : significand ≤ 2 ^ 53

theorem exists_significand {number : Nat} (hpositive : 0 < number) :
    ∃ significand place, IsSignificand number significand place ∧
      nearestBits number 1 = significand + (place + 1074).toNat * 2 ^ 52 := by
  have hexponent := isExponent_binaryExponent hpositive one_pos
  have hrounds := fun place ↦ @roundsTo_divideScaled 2 number 1 two_pos one_pos place
  rw [nearestBits]
  simp only [Nat.cast_one, Nat.cast_ofNat, div_one] at hexponent hrounds
  generalize binaryExponent number 1 = exponent at *
  have hone : (1 : ℚ) ≤ number := mod_cast hpositive
  have hnonneg : 0 ≤ exponent := hexponent.le_of_zpow_le one_lt_two (by simpa using hone)
  obtain ⟨place, rfl⟩ : ∃ place, exponent = place + 52 := ⟨exponent - 52, by omega⟩
  have hplace : max (place + 52 - 52) leastExponent = place := by
    rw [leastExponent]
    omega
  rw [hplace]
  have hround := hrounds place
  exact ⟨_, place, ⟨hexponent, hround, by omega, le_significand hexponent hround rfl,
    significand_le hexponent hround le_rfl⟩, rfl⟩

namespace IsSignificand

variable {number significand : Nat} {place : Int}

/-- Nothing of an integer of at most 53 binary digits is rounded off. -/
theorem eq_of_lt (hsignificand : IsSignificand number significand place) (hlt : number < 2 ^ 53) :
    (significand * 2 ^ place : ℚ) = number := by
  have hbound := @IsExponent.le_of_lt_zpow _ _ _ 52 hsignificand.isExponent one_lt_two
    (mod_cast hlt)
  obtain ⟨shift, rfl⟩ : ∃ shift : Nat, place = -(shift : ℤ) := ⟨(-place).toNat, by omega⟩
  have hexact : (number / 2 ^ (-(shift : ℤ)) : ℚ) = (number * 2 ^ shift : Nat) := by
    rw [zpow_neg, zpow_natCast, div_inv_eq_mul]
    push_cast
    rfl
  have hround := hexact ▸ hsignificand.roundsTo
  obtain rfl : significand = number * 2 ^ shift :=
    le_antisymm (hround.le (by linarith)) (hround.ge le_rfl)
  rw [← hexact, div_mul_cancel₀ _ (by positivity)]

theorem isNearest (hsignificand : IsSignificand number significand place) :
    IsNearest number (significand * 2 ^ place) where
  eq_of_lt := hsignificand.eq_of_lt
  le_of_le hle := by
    have hbound := @IsExponent.le_of_zpow_le _ _ _ 53 hsignificand.isExponent one_lt_two
      (mod_cast hle)
    calc (2 : ℚ) ^ 53
      _ = 2 ^ 52 * 2 ^ (1 : ℤ) := by norm_num
      _ ≤ significand * 2 ^ place := by
        gcongr
        · exact mod_cast hsignificand.le
        · exact one_le_two
        · omega

end IsSignificand

theorem exists_nearest {number : Nat} (hpositive : 0 < number) :
    ∃ mantissa exponent, 0 < mantissa ∧ Canonical mantissa exponent ∧
      nearestBits number 1 = mantissa + (exponent + 1074).toNat * 2 ^ 52 ∧
      IsNearest number (mantissa * 2 ^ exponent) := by
  obtain ⟨significand, place, hsignificand, hbits⟩ := exists_significand hpositive
  have hplace := hsignificand.place_le
  obtain ⟨mantissa, exponent, hmantissa, hcanonical, hrank, hvalue⟩ :=
    exists_canonical_of_le hsignificand.le hsignificand.ge (show -1074 ≤ place by omega)
  exact ⟨mantissa, exponent, hmantissa, hcanonical, hbits.trans hrank.symm,
    hvalue ▸ hsignificand.isNearest⟩

/-- The double of an integer that has one is near to it, with its sign. -/
theorem exists_value_nearest (negative : Bool) {number : Nat} (hpositive : 0 < number)
    (hfits : ¬ Overflows number 1) :
    (ofRank negative (nearestBits number 1)).isFinite ∧ ∃ magnitude, IsNearest number magnitude ∧
      0 ≤ magnitude ∧
      value (ofRank negative (nearestBits number 1)) = signed (signOf negative) magnitude := by
  obtain ⟨mantissa, exponent, hmantissa, hcanonical, hrank, hnearest⟩ := exists_nearest hpositive
  have hmax : exponent ≤ 971 := by
    have hinfinity : infinityBits = 2047 * 4503599627370496 := rfl
    have hnormal := hcanonical.isNormal_or
    rw [Overflows, hrank] at hfits
    omega
  have hunpack := unpack_ofRank negative hmantissa hcanonical hmax
  rw [hrank]
  refine ⟨?_, _, hnearest, by positivity, ?_⟩
  · show (Float.toModel _).unpack.isFinite = true
    rw [hunpack]
    rfl
  · rw [value, hunpack]
    rfl

end Binary64

open Binary64

theorem Conversion.value_zero (negative : Bool) :
    (zero negative).value.isFinite ∧ Real64.value (zero negative).value = 0 := by
  cases negative <;> decide +kernel

namespace Numeral

variable {numeral : Numeral} {integer : Int}

/-- A written integer is its coefficient with its sign. -/
theorem eq_apply_of_integer? (hinteger : numeral.integer? = some integer) :
    numeral.scale = 0 ∧ (integer : ℚ) = signed (signOf numeral.negative) numeral.coefficient ∧
      integer.natAbs = numeral.coefficient := by
  rw [integer?] at hinteger
  split at hinteger
  · next hnone =>
    obtain ⟨hfraction, hexponent⟩ := hnone
    cases hinteger
    rw [coefficient, Mantissa.digits, hfraction, Option.getD_none, List.append_nil, signed_natCast]
    generalize Decimal.value numeral.mantissa.whole = number
    refine ⟨by simp [scale, hfraction, hexponent], ?_⟩
    rw [Sign.apply, negative, signOf]
    by_cases hminus : numeral.mantissa.sign = some .minus <;>
      simp [hminus, Float.Model.UnpackedFloat.Sign.apply]
  · cases hinteger

/-- The double of a written integer in the range of doubles. -/
theorem value_convert (hinteger : numeral.integer? = some integer)
    (hrange : numeral.convert.inRange = true) :
    numeral.convert.value.isFinite ∧
      (integer.natAbs < 2 ^ 53 → value numeral.convert.value = integer) ∧
      (2 ^ 53 ≤ integer.natAbs → 2 ^ 53 ≤ |value numeral.convert.value|) := by
  obtain ⟨hscale, hsigned, hmagnitude⟩ := eq_apply_of_integer? hinteger
  rw [hmagnitude, hsigned]
  rw [convert, Conversion.ofScaled, hscale] at hrange ⊢
  by_cases hzero : numeral.coefficient = 0
  · obtain ⟨hfinite, hvalue⟩ := Conversion.value_zero numeral.negative
    rw [if_pos hzero, hzero]
    refine ⟨hfinite, fun _ ↦ hvalue.trans ?_, fun hle ↦ absurd hle (by decide)⟩
    rw [signed_natCast]
    cases signOf numeral.negative <;> rfl
  · have hlarge : ¬ 1100 < (numeral.places : Int) + 0 := by
      intro hlarge
      rw [if_neg hzero, if_pos hlarge] at hrange
      cases hrange
    have hsmall : ¬ (numeral.places : Int) + 0 < -1100 := by omega
    rw [if_neg hzero, if_neg hlarge, if_neg hsmall, Conversion.ofRatio] at hrange ⊢
    have hone : numeral.coefficient * Nat.pow 10 (Int.toNat 0) = numeral.coefficient :=
      Nat.mul_one _
    rw [hone, show Nat.pow 10 (-(0 : Int)).toNat = 1 from rfl, if_neg hzero] at hrange ⊢
    have hfits : ¬ Overflows numeral.coefficient 1 := by
      exact fun hover ↦ of_decide_eq_true hrange (.inl hover)
    obtain ⟨hfinite, magnitude, hnearest, hnonneg, hvalue⟩ :=
      exists_value_nearest numeral.negative (Nat.pos_of_ne_zero hzero) hfits
    refine ⟨hfinite, fun hlt ↦ ?_, fun hle ↦ ?_⟩
    · rw [hvalue, hnearest.eq_of_lt hlt]
    · rw [hvalue, abs_signed, abs_of_nonneg hnonneg]
      exact hnearest.le_of_le hle

/-- A written integer of at most 53 binary digits is in the range of doubles, however many zeros it
starts with. -/
theorem IsWritten.inRange_convert_of_lt (hwritten : numeral.IsWritten)
    (hinteger : numeral.integer? = some integer) (hlt : integer.natAbs < 2 ^ 53) :
    numeral.convert.inRange = true := by
  obtain ⟨hscale, _, hmagnitude⟩ := eq_apply_of_integer? hinteger
  rw [hwritten.inRange_convert_iff, number, hscale, zpow_zero, mul_one]
  rw [hmagnitude] at hlt
  refine .inr ⟨fun hlarge ↦ ?_, fun hsmall ↦ hsmall.2 ⟨numeral.coefficient * 2 ^ 1074, ?_⟩⟩
  · have hless : (numeral.coefficient : ℚ) < 2 ^ 53 := mod_cast hlt
    refine absurd (hlarge.trans_lt hless) (not_lt.mpr ?_)
    calc (2 : ℚ) ^ 53
      _ ≤ (2 ^ 53 - 1 / 2) * 2 ^ (1 : ℤ) := by norm_num
      _ ≤ (2 ^ 53 - 1 / 2) * 2 ^ (971 : ℤ) := by
        gcongr
        · norm_num
        · decide
  · generalize 1074 = power
    push_cast
    field_simp

/-- The double of a written integer gives the integer when it is an exponent, and tells when it is
too large for one. -/
theorem exponent?_convert (hinteger : numeral.integer? = some integer)
    (hrange : numeral.convert.inRange = true) :
    exponent? numeral.convert.value =
      if 2147483647 < integer.natAbs then none else some integer := by
  obtain ⟨hfinite, hexact, hlarge⟩ := value_convert hinteger hrange
  obtain ⟨hfiniteAbs, habs⟩ := abs_spec hfinite
  have hlimit : (2147483647 : Float).isFinite ∧ value 2147483647 = 2147483647 := by decide +kernel
  have hless : (2147483647 : Float) < numeral.convert.value.abs ↔ 2147483647 < integer.natAbs := by
    rw [lt_iff hlimit.1 hfiniteAbs, hlimit.2, habs]
    rcases Nat.lt_or_ge integer.natAbs (2 ^ 53) with hlt | hge
    · rw [hexact hlt, ← Int.cast_abs, Int.abs_eq_natAbs, Int.cast_natCast]
      exact mod_cast Iff.rfl
    · have := hlarge hge
      exact iff_of_true (by linarith) (by omega)
  rw [exponent?]
  by_cases hover : 2147483647 < integer.natAbs
  · rw [if_pos (hless.mpr hover), if_pos hover]
  · rw [if_neg (mt hless.mp hover), if_neg hover, integerPart_of_value hfinite (hexact (by omega))]

end Numeral

end Metrology
