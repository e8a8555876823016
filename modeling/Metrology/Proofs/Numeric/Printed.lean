import Metrology.Proofs.Numeric.Doubles
import Metrology.Proofs.Numeric.Numerals
import Metrology.Proofs.Numeric.Significant

/-!
# The text of a double is a numeral

The general form of a finite double is written in the grammar of numerals, whichever of its layouts
is used (`Display.exists_writes_generalDigits`). The numeral stands for the digits at their places,
as zeros are left out only at the end of a fraction.
-/

set_option autoImplicit false
set_option relaxedAutoImplicit false

namespace Metrology

/-! ### The ratio of a double -/

namespace Real64

open Float.Model Float.Model.UnpackedFloat

/-- The fields of a double are those of its bits. -/
theorem unpack_eq_ofFields_bits (bits : UInt64) :
    ∃ sign biased fraction,
      UnpackedFloat.unpack Format.binary64 bits.toBitVec = ofFields sign biased fraction ∧
      (sign = if 2 ^ 63 ≤ bits.toNat then .negative else .positive) ∧
      biased.toNat = bits.toNat / 2 ^ 52 % 2 ^ 11 ∧ fraction.toNat = bits.toNat % 2 ^ 52 := by
  refine ⟨_, _, _, rfl, ?_, ?_, ?_⟩
  · have hbit : (@unpackSign Format.binary64 bits.toBitVec).toNat = bits.toNat / 2 ^ 63 % 2 := by
      simp only [unpackSign, BitVec.toNat_cast, BitVec.extractLsb_toNat]
      show (bits.toNat >>> 63) % 2 ^ 1 = _
      rw [Nat.shiftRight_eq_div_pow]
    have hlt := bits.toNat_lt
    rw [Sign.ofBitVec]
    by_cases hnegative : 2 ^ 63 ≤ bits.toNat
    · rw [if_pos hnegative, if_neg]
      intro hzero
      rw [hzero] at hbit
      change 0 = _ at hbit
      omega
    · rw [if_neg hnegative, if_pos (BitVec.eq_of_toNat_eq ?_)]
      rw [hbit]
      show _ = 0
      omega
  · simp only [unpackExponent, BitVec.toNat_cast, BitVec.extractLsb_toNat]
    show (bits.toNat >>> 52) % 2 ^ 11 = _
    rw [Nat.shiftRight_eq_div_pow]
  · simp only [unpackMantissa, BitVec.toNat_cast, BitVec.extractLsb_toNat]
    show (bits.toNat >>> 0) % 2 ^ 52 = _
    rw [Nat.shiftRight_zero]

end Real64

open Float.Model Float.Model.UnpackedFloat in
/-- A finite double is a ratio, but for its sign. -/
theorem Binary64.exists_ratio? {number : Float} (hfinite : number.isFinite) :
    ∃ negative numerator denominator, ratio? number = some (negative, numerator, denominator) ∧
      0 < denominator ∧ |Real64.value number| = numerator / denominator := by
  obtain ⟨sign, biased, fraction, hunpack, _, hbiased, hfraction⟩ :=
    Real64.unpack_eq_ofFields_bits number.toModel.toBits
  change number.toModel.unpack = _ at hunpack
  change number.toModel.unpack.isFinite = true at hfinite
  rw [hunpack, Real64.ofFields] at hfinite
  have hinfinite : biased ≠ -1#11 := by
    rintro rfl
    rw [if_pos rfl] at hfinite
    split at hfinite <;> cases hfinite
  have hfield : biased.toNat ≠ 2047 := fun heq ↦ hinfinite (BitVec.eq_of_toNat_eq heq)
  have hplace : number.toBits.toNat / Nat.pow 2 52 % Nat.pow 2 11 = biased.toNat := hbiased.symm
  have hdigits : number.toBits.toNat % Nat.pow 2 52 = fraction.toNat := hfraction.symm
  simp only [ratio?, hplace, hdigits, if_neg hfield]
  refine ⟨_, _, _, rfl, Nat.pow_pos (by decide), ?_⟩
  refine Eq.trans ?_ (@mul_pow_div_pow 2 two_pos _ _).symm
  rw [Real64.value, hunpack, Real64.ofFields, if_neg hinfinite, leastExponent]
  by_cases hzero : biased = 0#11
  · subst hzero
    rw [if_pos rfl, if_pos (show (0#11).toNat = 0 from rfl)]
    split
    · next hnone =>
      subst hnone
      rw [Real64.rational_zero, abs_zero]
      simp
    · rw [Real64.abs_rational_finite]
      rfl
  · have hnormal : biased.toNat ≠ 0 := fun heq ↦ hzero (BitVec.eq_of_toNat_eq heq)
    rw [if_neg hzero, if_neg hnormal, Real64.abs_rational_finite, Real64.toNat_append_one,
      Nat.add_comm, Nat.max_eq_left (by omega)]
    congr 2
    omega

/-! ### Numerals and their numbers -/

/-- The rational number that a numeral stands for, without its sign. -/
def Numeral.number (numeral : Numeral) : ℚ :=
  numeral.coefficient * 10 ^ numeral.scale

/-- A numeral is what a text writes, and stands for a number. -/
structure Numeral.Writes (numeral : Numeral) (text : Text) (number : ℚ) : Prop where
  isWritten : numeral.IsWritten
  text_eq : numeral.text = text
  number_eq : numeral.number = number

namespace Display

/-! ### Zeros at the end -/

theorem exists_stripZeros_append (digits : List Nat) :
    ∃ count, digits = stripZeros digits ++ List.replicate count 0 := by
  have hreverse := congrArg List.reverse
    (@List.takeWhile_append_dropWhile _ (· == 0) digits.reverse)
  rw [List.reverse_append, List.reverse_reverse, Decimal.takeWhile_zero_eq,
    List.reverse_replicate] at hreverse
  exact ⟨_, hreverse.symm⟩

theorem mem_of_mem_stripZeros {digits : List Nat} {digit : Nat}
    (hdigit : digit ∈ stripZeros digits) : digit ∈ digits := by
  obtain ⟨count, heq⟩ := exists_stripZeros_append digits
  rw [heq]
  exact List.mem_append_left _ hdigit

/-- Zeros at the end of a fraction do not count. -/
theorem value_append_stripZeros (whole fraction : List Nat) (exponent : ℤ) :
    (Decimal.value (whole ++ stripZeros fraction) : ℚ) *
        10 ^ (exponent - (stripZeros fraction).length) =
      Decimal.value (whole ++ fraction) * 10 ^ (exponent - fraction.length) := by
  obtain ⟨count, heq⟩ := exists_stripZeros_append fraction
  generalize stripZeros fraction = stripped at *
  subst heq
  rw [← List.append_assoc, Decimal.value_append _ (List.replicate count 0),
    Decimal.value_replicate_zero, Nat.add_zero, List.length_append, List.length_replicate,
    Nat.cast_mul, Nat.cast_pow, Nat.cast_ofNat, mul_assoc, ten_pow_mul_zpow]
  congr 2
  push_cast
  ring

/-! ### Numerals in the general form -/

/-- The sign of a number that is negative or not. -/
def signOf (negative : Bool) : Option Sign :=
  if negative then some .minus else none

/-- The mantissa of a whole part and the digits after the point. -/
def pointedMantissa (negative : Bool) (whole fraction : List Nat) : Mantissa :=
  ⟨signOf negative, whole, if fraction = [] then none else some fraction⟩

/-- Digits with a zero before a single one. -/
def twoDigits (digits : List Nat) : List Nat :=
  if digits.length < 2 then 0 :: digits else digits

/-- The exponent part with a sign and two digits at least. -/
def signedPart (exponent : Int) : ExponentPart :=
  ⟨false, some (if exponent < 0 then .minus else .plus),
    twoDigits (Decimal.digits exponent.natAbs)⟩

theorem digitText_eq (digits : List Nat) :
    digitText digits = (digits.map digitCode).map Nat.toUInt8 := by
  rw [List.map_map]
  rfl

theorem signText_eq (negative : Bool) :
    signText negative = (Sign.codes (signOf negative)).map Nat.toUInt8 := by
  cases negative <;> rfl

theorem pointed_eq (negative : Bool) (whole fraction : List Nat) :
    signText negative ++ pointed whole fraction =
      (pointedMantissa negative whole fraction).codes.map Nat.toUInt8 := by
  rw [Mantissa.codes, List.map_append, List.map_append, List.append_assoc, signText_eq, pointed,
    pointedMantissa, digitText_eq, digitText_eq]
  split
  · rw [Mantissa.fractionCodes, List.map_nil, List.append_nil]
  · rw [Mantissa.fractionCodes, List.map_cons, List.append_assoc]
    rfl

theorem exponentText_eq (exponent : Int) :
    exponentText exponent = (signedPart exponent).codes.map Nat.toUInt8 := by
  have hlength : (Decimal.ofNat exponent.natAbs).length =
      (Decimal.digits exponent.natAbs).length := List.length_map _
  have hdigits : (if (Decimal.digits exponent.natAbs).length < 2 then
      utf8 "0" ++ Decimal.ofNat exponent.natAbs else Decimal.ofNat exponent.natAbs) =
        digitText (twoDigits (Decimal.digits exponent.natAbs)) := by
    rw [twoDigits]
    split <;> rfl
  have hsign : (if exponent < 0 then utf8 "e-" else utf8 "e+") =
      (ExponentPart.letter false ::
        Sign.codes (some (if exponent < 0 then .minus else .plus))).map Nat.toUInt8 := by
    split <;> rfl
  simp only [exponentText, hlength, hdigits, hsign]
  rw [digitText_eq, ← List.map_append, List.cons_append]
  rfl

theorem value_signedPart (exponent : Int) : (signedPart exponent).value = exponent := by
  have hvalue : Decimal.value (twoDigits (Decimal.digits exponent.natAbs)) = exponent.natAbs := by
    rw [twoDigits]
    split
    · rw [← List.singleton_append, Decimal.value_append, Decimal.value_digits]
      simp [Decimal.value]
    · exact Decimal.value_digits _
  simp only [ExponentPart.value, signedPart, hvalue, Sign.apply]
  by_cases hnegative : exponent < 0
  · rw [if_pos hnegative, if_pos rfl]
    omega
  · rw [if_neg hnegative, if_neg (by decide)]
    omega

theorem isWritten_signedPart (exponent : Int) :
    (∀ digit ∈ (signedPart exponent).digits, digit < 10) ∧ (signedPart exponent).digits ≠ [] := by
  show (∀ digit ∈ twoDigits (Decimal.digits exponent.natAbs), digit < 10) ∧
    twoDigits (Decimal.digits exponent.natAbs) ≠ []
  rw [twoDigits]
  split
  · refine ⟨fun digit hdigit ↦ ?_, List.cons_ne_nil _ _⟩
    rcases List.mem_cons.mp hdigit with rfl | hmem
    · decide
    · exact Decimal.lt_ten_of_mem_digits hmem
  · exact ⟨fun digit ↦ Decimal.lt_ten_of_mem_digits, Decimal.digits_ne_nil _⟩

theorem digits_pointedMantissa (negative : Bool) (whole fraction : List Nat) :
    (pointedMantissa negative whole fraction).digits = whole ++ fraction := by
  rw [Mantissa.digits, pointedMantissa]
  dsimp only
  split
  · next hnone => rw [hnone]; rfl
  · rfl

theorem length_pointedMantissa (negative : Bool) (whole fraction : List Nat) :
    ((pointedMantissa negative whole fraction).fraction.map List.length).getD 0 =
      fraction.length := by
  rw [pointedMantissa]
  dsimp only
  split
  · next hnone => rw [hnone]; rfl
  · rfl

/-- A mantissa is written with an exponent part, or without one. -/
theorem writes_pointed (negative : Bool) {whole fraction : List Nat} (part : Option Int)
    (hwhole : whole ≠ []) (hten : ∀ digit ∈ whole ++ fraction, digit < 10) :
    Numeral.Writes ⟨pointedMantissa negative whole fraction, part.map signedPart⟩
      (signText negative ++ (pointed whole fraction ++ (part.map exponentText).getD []))
      (Decimal.value (whole ++ fraction) * 10 ^ (part.getD 0 - fraction.length)) where
  isWritten := by
    have hpart : ∀ exponent ∈ part.map signedPart,
        (∀ digit ∈ exponent.digits, digit < 10) ∧ exponent.digits ≠ [] := by
      rintro _ hmem
      obtain ⟨exponent, _, rfl⟩ := Option.map_eq_some_iff.mp hmem
      exact isWritten_signedPart exponent
    refine ⟨fun digit hdigit ↦ hten digit (List.mem_append_left _ hdigit), ?_, ?_,
      fun exponent hexponent ↦ (hpart exponent hexponent).1,
      fun exponent hexponent ↦ (hpart exponent hexponent).2⟩
    · intro digits hfraction digit hdigit
      have hdigits : digits = fraction := by
        rw [pointedMantissa] at hfraction
        dsimp only at hfraction
        split at hfraction
        · cases hfraction
        · cases hfraction
          rfl
      exact hten digit (List.mem_append_right whole (hdigits ▸ hdigit))
    · rw [digits_pointedMantissa]
      exact List.append_ne_nil_of_left_ne_nil hwhole _
  text_eq := by
    rw [← List.append_assoc, pointed_eq, Numeral.text, Numeral.codes, List.map_append]
    cases part with
    | none => rfl
    | some exponent =>
      rw [Option.map_some, Option.map_some, Option.map_some, Option.getD_some, Option.getD_some,
        exponentText_eq]
  number_eq := by
    have hexponent : ((part.map signedPart).map ExponentPart.value).getD 0 = part.getD 0 := by
      cases part with
      | none => rfl
      | some exponent => exact value_signedPart exponent
    rw [Numeral.number, Numeral.coefficient, Numeral.scale, hexponent, digits_pointedMantissa,
      length_pointedMantissa]

theorem writes_positional (negative : Bool) {whole fraction : List Nat} (hwhole : whole ≠ [])
    (hten : ∀ digit ∈ whole ++ fraction, digit < 10) :
    Numeral.Writes ⟨pointedMantissa negative whole fraction, none⟩
      (signText negative ++ pointed whole fraction)
      (Decimal.value (whole ++ fraction) * 10 ^ (0 - (fraction.length : ℤ))) := by
  have hwrites := writes_pointed negative none hwhole hten
  rwa [Option.map_none, Option.map_none, Option.getD_none, List.append_nil] at hwrites

/-- The general form of digits below ten, as many as there are places for, is a numeral. It stands
for the digits with a point after the first, to the power of ten of the exponent. -/
theorem exists_writes_generalDigits (negative : Bool) {further : Nat} {digits : List Nat}
    (hlength : digits.length = further + 1) (hten : ∀ digit ∈ digits, digit < 10) (exponent : Int) :
    ∃ numeral : Numeral,
      numeral.Writes (signText negative ++ generalDigits (further + 1) digits exponent)
        (Decimal.value digits * 10 ^ (exponent - further)) := by
  have htake : ∀ count, digits.take (count + 1) ≠ [] := by
    intro count hnil
    have := congrArg List.length hnil
    simp [hlength] at this
  have hsplit : ∀ count, ∀ digit ∈ digits.take count ++ stripZeros (digits.drop count),
      digit < 10 := by
    intro count digit hmem
    rcases List.mem_append.mp hmem with hmem | hmem
    · exact hten digit (List.mem_of_mem_take hmem)
    · exact hten digit (List.mem_of_mem_drop (mem_of_mem_stripZeros hmem))
  rw [generalDigits]
  split
  · -- One digit stands before the point.
    have hwrites := writes_pointed negative (some exponent) (htake 0) (hsplit 1)
    rw [value_append_stripZeros, List.take_append_drop, List.length_drop, hlength,
      Nat.add_sub_cancel] at hwrites
    exact ⟨_, hwrites⟩
  · split
    · -- Zeros stand before all digits.
      next hnegative =>
      have hzeros : ∀ digit ∈ [0] ++ (List.replicate (exponent.natAbs - 1) 0 ++ stripZeros digits),
          digit < 10 := by
        intro digit hmem
        rw [List.mem_append, List.mem_append, List.mem_singleton] at hmem
        rcases hmem with rfl | hmem | hmem
        · decide
        · rw [List.eq_of_mem_replicate hmem]
          decide
        · exact hten digit (mem_of_mem_stripZeros hmem)
      have hwrites := writes_positional negative (List.cons_ne_nil 0 []) hzeros
      have hplace : (0 : Int) - (List.replicate (exponent.natAbs - 1) 0 ++ stripZeros digits).length =
            exponent + 1 - (stripZeros digits).length := by
        rw [List.length_append, List.length_replicate]
        omega
      have hzero : Decimal.value ([0] ++ List.replicate (exponent.natAbs - 1) 0) = 0 :=
        Decimal.value_replicate_zero (exponent.natAbs - 1 + 1)
      rw [hplace, ← List.append_assoc [0], value_append_stripZeros, Decimal.value_append, hzero,
        Nat.zero_mul, Nat.zero_add, hlength,
        show exponent + 1 - ((further + 1 : Nat) : Int) = exponent - further by omega] at hwrites
      exact ⟨_, hwrites⟩
    · next hsmall hnegative =>
      have hwrites :=
        writes_positional negative (htake exponent.toNat) (hsplit (exponent.toNat + 1))
      rw [value_append_stripZeros, List.take_append_drop, List.length_drop, hlength,
        show (0 : Int) - (further + 1 - (exponent.toNat + 1) : Nat) = exponent - further by omega]
        at hwrites
      exact ⟨_, hwrites⟩

/-- The general form of a finite double is a numeral, which stands for the double rounded to six
significant digits. -/
theorem exists_writes_general {number : Float} (hfinite : number.isFinite) :
    ∃ (numeral : Numeral) (numerator denominator : Nat), 0 < denominator ∧
      |Real64.value number| = numerator / denominator ∧
      numeral.Writes (general number)
        (if numerator = 0 then 0 else rounded 6 numerator denominator) := by
  obtain ⟨negative, numerator, denominator, hratio, hdenominator, hvalue⟩ :=
    Binary64.exists_ratio? hfinite
  rw [general, hratio]
  cases numerator with
  | zero =>
    have hwrites := @writes_positional negative [0] [] (List.cons_ne_nil 0 []) (by decide)
    have hnumber : (Decimal.value ([0] ++ []) : ℚ) * 10 ^ (0 - ([] : List Nat).length : ℤ) = 0 := by
      simp [Decimal.value]
    rw [hnumber] at hwrites
    exact ⟨_, 0, denominator, hdenominator, hvalue, hwrites⟩
  | succ numerator =>
    obtain ⟨hle, hlt⟩ := scientific_digits 5 numerator.succ_pos hdenominator
    have hlength : (Decimal.digits (scientific 6 (numerator + 1) denominator).1).length = 5 + 1 := by
      rw [Decimal.length_digits, Nat.log_eq_of_pow_le_of_lt_pow hle hlt]
    obtain ⟨numeral, hwrites⟩ := exists_writes_generalDigits negative hlength
      (fun digit ↦ Decimal.lt_ten_of_mem_digits) (scientific 6 (numerator + 1) denominator).2
    rw [Decimal.value_digits] at hwrites
    exact ⟨numeral, numerator + 1, denominator, hdenominator, hvalue, hwrites⟩

end Display

end Metrology
