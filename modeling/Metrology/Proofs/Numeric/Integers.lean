import Metrology.Numeric.Conversion
import Metrology.Proofs.Text.Utf8

/-!
# Written integers

`Decimal.ofInt` writes an integer as a numeral without point and exponent part
(`Numeral.ofInt`). Reading finds that numeral in front of anything that cannot go on with it
(`Numeral.scan_ofInt_append`), it stands for the integer, so that no other integer is written alike
(`Decimal.ofInt_injective`), and it is in the range of doubles as long as the integer has no more
than 53 bits (`Numeral.inRange_convert_ofInt`).
-/

set_option autoImplicit false
set_option relaxedAutoImplicit false

namespace Metrology

namespace Numeral

/-- The numeral that an integer is written as. -/
def ofInt (integer : Int) : Numeral :=
  ⟨⟨if integer < 0 then some .minus else none, Decimal.digits integer.natAbs, none⟩, none⟩

/-- No digit, point or exponent part starts here. -/
def EndsInteger (codes : List Nat) : Prop :=
  ∀ code ∈ codes.head?, isDigit code = false ∧ code ≠ 46 ∧ code ≠ 69 ∧ code ≠ 101

/-! ### The numeral is found -/

theorem isDigit_digitCode {digit : Nat} (hdigit : digit < 10) : isDigit (digitCode digit) := by
  simp only [isDigit, Bool.and_eq_true, decide_eq_true_eq]
  rw [digitCode]
  omega

theorem digitValue_digitCode (digit : Nat) : digitValue (digitCode digit) = digit :=
  Nat.add_sub_cancel_left 48 digit

theorem scanDigits_append {digits rest : List Nat} (hdigits : ∀ digit ∈ digits, digit < 10)
    (hrest : ∀ code ∈ rest.head?, isDigit code = false) :
    scanDigits (digits.map digitCode ++ rest) = (digits, rest) := by
  induction digits with
  | nil =>
    cases rest with
    | nil => rfl
    | cons code rest => simp [scanDigits, hrest code rfl]
  | cons digit digits ih =>
    have hread := ih fun other hother ↦ hdigits other (List.mem_cons_of_mem digit hother)
    rw [scanDigits, Prod.mk.injEq] at hread ⊢
    have hdigit := isDigit_digitCode (hdigits digit (by simp))
    simp only [List.map_cons, List.cons_append, List.takeWhile_cons_of_pos hdigit,
      List.dropWhile_cons_of_pos hdigit, digitValue_digitCode, hread.1, hread.2, and_self]

theorem scanSign_append {sign : Option Sign} {rest : List Nat}
    (hrest : ∀ code ∈ rest.head?, code ≠ 43 ∧ code ≠ 45) :
    Sign.scan (Sign.codes sign ++ rest) = (sign, rest) := by
  rcases sign with _ | _ | _
  · cases rest with
    | nil => rfl
    | cons code rest =>
      obtain ⟨hplus, hminus⟩ := hrest code rfl
      show (if code = 43 then _ else if code = 45 then _ else _) = _
      rw [if_neg hplus, if_neg hminus]
  · rfl
  · rfl

/-- Reading finds a written integer in front of anything that cannot go on with it. -/
theorem scan_ofInt_append {integer : Int} {rest : List Nat} (hrest : EndsInteger rest) :
    scan ((ofInt integer).codes ++ rest) = some (ofInt integer, rest) := by
  have hten : ∀ digit ∈ Decimal.digits integer.natAbs, digit < 10 :=
    fun digit hdigit ↦ Decimal.lt_ten_of_mem_digits hdigit
  obtain ⟨first, others, hdigits⟩ :=
    List.exists_cons_of_ne_nil (Decimal.digits_ne_nil integer.natAbs)
  have hsign : ∀ code ∈ ((Decimal.digits integer.natAbs).map digitCode ++ rest).head?,
      code ≠ 43 ∧ code ≠ 45 := by
    intro code hcode
    rw [hdigits, List.map_cons, List.cons_append, List.head?_cons, Option.mem_some_iff] at hcode
    rw [← hcode, digitCode]
    omega
  have hfraction : Mantissa.scanFraction rest = (none, rest) := by
    cases rest with
    | nil => rfl
    | cons code rest => exact if_neg (hrest code rfl).2.1
  have hexponent : ExponentPart.scan rest = (none, rest) := by
    cases rest with
    | nil => rfl
    | cons code rest =>
      obtain ⟨_, _, hcapital, hsmall⟩ := hrest code rfl
      exact if_neg (not_or.mpr ⟨hcapital, hsmall⟩)
  have hmantissa : Mantissa.scan ((ofInt integer).codes ++ rest) =
      ((ofInt integer).mantissa, rest) := by
    simp only [Mantissa.scan, codes, ofInt, Mantissa.codes, Mantissa.fractionCodes,
      Option.map_none, Option.getD_none, List.append_nil, List.append_assoc,
      scanSign_append hsign, scanDigits_append hten fun code hcode ↦ (hrest code hcode).1,
      hfraction]
  have hsome : (ofInt integer).mantissa.digits ≠ [] := by
    rw [Mantissa.digits, ofInt, hdigits]
    simp
  rw [scan, hmantissa]
  simp only [if_neg hsome, hexponent]
  rfl

/-- A written integer stands for itself. -/
theorem integer?_ofInt (integer : Int) : (ofInt integer).integer? = some integer := by
  rw [integer?, if_pos ⟨rfl, rfl⟩]
  simp only [ofInt, Decimal.value_digits, Sign.apply]
  by_cases hnegative : integer < 0
  · rw [if_pos hnegative, if_pos rfl]
    congr 1
    omega
  · rw [if_neg hnegative, if_neg (by simp)]
    congr 1
    omega

/-! ### Its text -/

theorem decodeAll_map {codes : List Nat} (hascii : ∀ code ∈ codes, code < 0x80) :
    Utf8.decodeAll (codes.map Nat.toUInt8) = (codes, none) := by
  induction codes with
  | nil => rw [List.map_nil, Utf8.decodeAll]
  | cons code rest ih =>
    have hcode : code.toUInt8.toNat = code := by
      have := hascii code (by simp)
      exact Nat.mod_eq_of_lt (by omega)
    rw [List.map_cons, Utf8.decodeAll_cons_ascii (by rw [hcode]; exact hascii code (by simp)),
      ih fun other hother ↦ hascii other (List.mem_cons_of_mem code hother), hcode]

theorem ofInt_eq_map (integer : Int) :
    Decimal.ofInt integer = (ofInt integer).codes.map Nat.toUInt8 := by
  have hdigits : ∀ number, Decimal.ofNat number =
      ((Decimal.digits number).map digitCode).map Nat.toUInt8 := by
    intro number
    rw [List.map_map]
    rfl
  cases integer with
  | ofNat number =>
    have hsign : ¬ Int.ofNat number < 0 := Int.not_lt.mpr (Int.natCast_nonneg number)
    simp only [ofInt, if_neg hsign, codes, Mantissa.codes, Mantissa.fractionCodes, Sign.codes,
      Option.map_none, Option.toList_none, Option.getD_none, List.nil_append, List.append_nil]
    exact hdigits number
  | negSucc number =>
    simp only [ofInt, if_pos (Int.negSucc_lt_zero number), codes, Mantissa.codes,
      Mantissa.fractionCodes, Sign.codes, Option.map_some, Option.map_none, Option.toList_some,
      Option.getD_none, List.append_nil, List.singleton_append, List.map_cons]
    exact congrArg (45 :: ·) (hdigits (number + 1))

/-- The code points of a written integer. -/
theorem decodeAll_ofInt (integer : Int) :
    Utf8.decodeAll (Decimal.ofInt integer) = ((ofInt integer).codes, none) := by
  rw [ofInt_eq_map]
  refine decodeAll_map fun code hcode ↦ ?_
  simp only [ofInt, codes, Mantissa.codes, Mantissa.fractionCodes, Option.map_none,
    Option.getD_none, List.append_nil, List.mem_append, List.mem_map] at hcode
  rcases hcode with hsign | ⟨digit, hdigit, rfl⟩
  · split at hsign
    · rw [List.mem_singleton.mp hsign, Sign.code]
      decide
    · cases hsign
  · have := Decimal.lt_ten_of_mem_digits hdigit
    rw [digitCode]
    omega

end Numeral

namespace Decimal

/-- An integer is told by its numeral. -/
theorem ofInt_injective {first second : Int} (htext : ofInt first = ofInt second) :
    first = second := by
  have hcodes : (Numeral.ofInt first).codes = (Numeral.ofInt second).codes := by
    have hdecode := Numeral.decodeAll_ofInt first
    rw [htext, Numeral.decodeAll_ofInt second, Prod.mk.injEq] at hdecode
    exact hdecode.1.symm
  have hscan : ∀ integer, Numeral.scan (Numeral.ofInt integer).codes =
      some (Numeral.ofInt integer, []) := by
    intro integer
    have happend := @Numeral.scan_ofInt_append integer [] (by simp [Numeral.EndsInteger])
    rwa [List.append_nil] at happend
  have hnumeral : Numeral.ofInt first = Numeral.ofInt second := by
    have hread := hscan first
    rw [hcodes, hscan second, Option.some.injEq, Prod.mk.injEq] at hread
    exact hread.1.symm
  have hinteger := Numeral.integer?_ofInt first
  rw [hnumeral, Numeral.integer?_ofInt second, Option.some.injEq] at hinteger
  exact hinteger.symm

theorem blank_not_mem_ofInt (integer : Int) : 32 ∉ ofInt integer := by
  have hdigits : ∀ number, 32 ∉ ofNat number := by
    intro number hmem
    obtain ⟨digit, hdigit, hcharacter⟩ := List.mem_map.mp hmem
    have hlt := lt_ten_of_mem_digits hdigit
    have hcode := congrArg UInt8.toNat hcharacter
    rw [character, Utf8.toNat_toUInt8 (by omega), show UInt8.toNat 32 = 32 by rfl] at hcode
    omega
  cases integer with
  | ofNat number => exact hdigits number
  | negSucc number =>
    exact List.not_mem_cons_of_ne_of_not_mem (by decide) (hdigits (number + 1))

end Decimal

namespace Numeral

/-! ### Its double -/

theorem length_digits_le {number places : Nat} (hlt : number < Nat.pow 10 (places + 1)) :
    (Decimal.digits number).length ≤ places + 1 := by
  induction places generalizing number with
  | zero => simp [Decimal.digits, show number < 10 from hlt]
  | succ places ih =>
    rw [Decimal.digits]
    split
    · simp
    · have hlarger : number < Nat.pow 10 (places + 1) * 10 := hlt
      have hquotient : number / 10 < Nat.pow 10 (places + 1) := by omega
      have := ih hquotient
      simp only [List.length_append, List.length_singleton]
      omega

theorem divideToEven_le (numerator denominator : Nat) :
    divideToEven numerator denominator ≤ numerator / denominator + 1 := by
  simp only [divideToEven]
  split <;> omega

theorem binaryExponent_one {number : Nat} (hpositive : number ≠ 0) :
    Binary64.binaryExponent number 1 = number.log2 := by
  have hestimate : (number.log2 : Int) - Nat.log2 1 = number.log2 := by
    rw [show Nat.log2 1 = 0 by decide]
    omega
  have hneg : (-(number.log2 : Int)).toNat = 0 := by omega
  rw [Binary64.binaryExponent]
  simp only [hestimate, hneg, Int.toNat_natCast]
  refine if_pos ?_
  rw [Nat.one_mul]
  exact Nat.le_trans (Nat.log2_self_le hpositive) (Nat.le_of_eq (Nat.mul_one number).symm)

/-- An integer of at most 53 bits is no larger than the doubles. -/
theorem not_overflows {number : Nat} (hpositive : number ≠ 0) (hlt : number < Nat.pow 2 53) :
    ¬ Binary64.Overflows number 1 := by
  have hlog : number.log2 < 53 := (Nat.log2_lt hpositive).mpr hlt
  obtain ⟨shift, hshift⟩ : ∃ shift, number.log2 + shift = 52 := ⟨52 - number.log2, by omega⟩
  have hexponent : max ((number.log2 : Int) - 52) Binary64.leastExponent = -(shift : Int) := by
    rw [Binary64.leastExponent]
    omega
  have hsignificand : number * Nat.pow 2 shift < Nat.pow 2 53 := by
    have hpower : Nat.pow 2 53 = Nat.pow 2 (number.log2 + 1) * Nat.pow 2 shift := by
      rw [show 53 = number.log2 + 1 + shift by omega]
      exact Nat.pow_add 2 (number.log2 + 1) shift
    rw [hpower]
    exact Nat.mul_lt_mul_of_pos_right Nat.lt_log2_self (Nat.two_pow_pos shift)
  have hrounded := divideToEven_le (number * Nat.pow 2 shift) (1 * Nat.pow 2 0)
  have hone : 1 * Nat.pow 2 0 = 1 := rfl
  rw [hone, Nat.div_one] at hrounded
  have hfield : (-(shift : Int) - Binary64.leastExponent).toNat ≤ 1074 := by
    rw [Binary64.leastExponent]
    omega
  rw [Binary64.Overflows, Binary64.nearestBits, binaryExponent_one hpositive, hexponent,
    divideScaled, Int.neg_neg, Int.toNat_natCast, show (-(shift : Int)).toNat = 0 by omega, hone]
  have hbits : Nat.pow 2 53 = 9007199254740992 := rfl
  have hunit : Nat.pow 2 52 = 4503599627370496 := rfl
  have hinfinity : Binary64.infinityBits = 2047 * 4503599627370496 := rfl
  rw [hunit, hinfinity]
  rw [hbits] at hsignificand
  omega

/-- An integer of at most 53 bits is in the range of doubles. -/
theorem inRange_convert_ofInt {integer : Int} (hlt : integer.natAbs < Nat.pow 2 53) :
    (ofInt integer).convert.inRange = true := by
  have hcoefficient : (ofInt integer).coefficient = integer.natAbs := by
    rw [coefficient, ofInt, Mantissa.digits]
    simp
  have hscale : (ofInt integer).scale = 0 := rfl
  have hplaces : (ofInt integer).places ≤ 16 := by
    have hlength := @length_digits_le integer.natAbs 15 (Nat.lt_trans hlt (by decide))
    have hdropped := (List.dropWhile_sublist (· == 0)
      (l := (ofInt integer).mantissa.digits)).length_le
    have hdigits : (ofInt integer).mantissa.digits = Decimal.digits integer.natAbs := by
      rw [Mantissa.digits, ofInt]
      simp
    rw [places]
    rw [hdigits] at hdropped ⊢
    omega
  rw [convert, hcoefficient, hscale, Conversion.ofScaled]
  by_cases hzero : integer.natAbs = 0
  · rw [if_pos hzero]
    rfl
  · have hnumerator : integer.natAbs * Nat.pow 10 (0 : Int).toNat = integer.natAbs :=
      Nat.mul_one integer.natAbs
    have hdenominator : Nat.pow 10 (-(0 : Int)).toNat = 1 := rfl
    have hexact : ¬ Binary64.Underflows integer.natAbs 1 :=
      fun hunderflows ↦ hunderflows.2 (Nat.mod_one _)
    rw [if_neg hzero, if_neg (by omega), if_neg (by omega), hnumerator, hdenominator,
      Conversion.ofRatio, if_neg hzero]
    simp [not_overflows hzero hlt, hexact]

end Numeral

end Metrology
