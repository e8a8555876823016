import Mathlib.Computability.RegularExpressions
import Metrology.Proofs.Numeric.Numerals

/-!
# The grammar of numerals

`Pattern.numeral` is the regular expression `[+-]?(D+(.D*)?|.D+)([eE][+-]?D+)?` of the written form
of a number. The texts that match it are those of the numerals that can be written
(`Pattern.mem_numeral_iff`), and those of integers match `[+-]?D+` (`Pattern.text_mem_integer_iff`).
-/

set_option autoImplicit false
set_option relaxedAutoImplicit false

namespace Metrology

namespace Pattern

/-- One of some bytes. -/
def oneOf (bytes : List UInt8) : RegularExpression UInt8 :=
  bytes.foldr (fun byte others ↦ .char byte + others) 0

/-- A pattern that may be missing. -/
def optional (pattern : RegularExpression UInt8) : RegularExpression UInt8 :=
  pattern + 1

/-- `D` -/
def digit : RegularExpression UInt8 :=
  oneOf (utf8 "0123456789")

/-- `D+` -/
def digits : RegularExpression UInt8 :=
  digit * digit.star

/-- `[+-]?` -/
def sign : RegularExpression UInt8 :=
  optional (oneOf (utf8 "+-"))

/-- `D+(.D*)?|.D+` -/
def mantissa : RegularExpression UInt8 :=
  digits * optional (oneOf (utf8 ".") * digit.star) + oneOf (utf8 ".") * digits

/-- `[eE][+-]?D+` -/
def exponent : RegularExpression UInt8 :=
  oneOf (utf8 "eE") * (sign * digits)

/-- `[+-]?(D+(.D*)?|.D+)([eE][+-]?D+)?` -/
def numeral : RegularExpression UInt8 :=
  sign * (mantissa * optional exponent)

/-- `[+-]?D+` -/
def integer : RegularExpression UInt8 :=
  sign * digits

/-! ### Its parts -/

theorem mem_oneOf {bytes text : List UInt8} :
    text ∈ (oneOf bytes).matches' ↔ ∃ byte ∈ bytes, text = [byte] := by
  induction bytes with
  | nil => simp [oneOf]
  | cons byte others ih =>
    rw [oneOf, List.foldr_cons, ← oneOf, RegularExpression.matches'_add, Language.mem_add, ih,
      List.exists_mem_cons_iff]
    rfl

theorem mem_optional {pattern : RegularExpression UInt8} {text : Text} :
    text ∈ (optional pattern).matches' ↔ text ∈ pattern.matches' ∨ text = [] :=
  Iff.rfl

theorem mem_mul {first second : RegularExpression UInt8} {text : Text} :
    text ∈ (first * second).matches' ↔
      ∃ before ∈ first.matches', ∃ after ∈ second.matches', before ++ after = text :=
  Language.mem_mul

/-- The text of a list of digits. -/
def digitsText (values : List Nat) : Text :=
  (values.map digitCode).map Nat.toUInt8

theorem mem_digit {text : Text} :
    text ∈ digit.matches' ↔ ∃ value < 10, digitsText [value] = text := by
  have hdigits : utf8 "0123456789" = (List.range 10).map fun value ↦ (digitCode value).toUInt8 := by
    decide
  rw [digit, mem_oneOf, hdigits]
  simp [digitsText, eq_comm]

theorem mem_star_digit {text : Text} : text ∈ digit.star.matches' ↔
    ∃ values : List Nat, (∀ value ∈ values, value < 10) ∧ digitsText values = text := by
  rw [RegularExpression.matches'_star, Language.mem_kstar]
  constructor
  · rintro ⟨parts, rfl, hparts⟩
    induction parts with
    | nil => exact ⟨[], by simp, rfl⟩
    | cons part others ih =>
      obtain ⟨value, hvalue, rfl⟩ := mem_digit.mp (hparts part (by simp))
      obtain ⟨values, hvalues, hothers⟩ :=
        ih fun other hother ↦ hparts other (List.mem_cons_of_mem _ hother)
      refine ⟨value :: values, List.forall_mem_cons.mpr ⟨hvalue, hvalues⟩, ?_⟩
      rw [List.flatten_cons, ← hothers]
      rfl
  · rintro ⟨values, hvalues, rfl⟩
    refine ⟨values.map fun value ↦ digitsText [value], ?_, fun part hpart ↦ ?_⟩
    · rw [digitsText, List.map_map, List.map_eq_flatMap]
      rfl
    · obtain ⟨value, hvalue, rfl⟩ := List.mem_map.mp hpart
      exact mem_digit.mpr ⟨value, hvalues value hvalue, rfl⟩

theorem mem_digits {text : Text} : text ∈ digits.matches' ↔ ∃ values : List Nat,
    (∀ value ∈ values, value < 10) ∧ values ≠ [] ∧ digitsText values = text := by
  rw [digits, mem_mul]
  constructor
  · rintro ⟨first, hfirst, others, hothers, rfl⟩
    obtain ⟨value, hvalue, rfl⟩ := mem_digit.mp hfirst
    obtain ⟨values, hvalues, rfl⟩ := mem_star_digit.mp hothers
    exact ⟨value :: values, List.forall_mem_cons.mpr ⟨hvalue, hvalues⟩, by simp, rfl⟩
  · rintro ⟨values, hvalues, hsome, rfl⟩
    obtain ⟨value, others, rfl⟩ := List.exists_cons_of_ne_nil hsome
    obtain ⟨hvalue, hothers⟩ := List.forall_mem_cons.mp hvalues
    exact ⟨_, mem_digit.mpr ⟨value, hvalue, rfl⟩, _, mem_star_digit.mpr ⟨others, hothers, rfl⟩, rfl⟩

theorem mem_sign {text : Text} : text ∈ sign.matches' ↔
    ∃ written : Option Sign, (Sign.codes written).map Nat.toUInt8 = text := by
  rw [sign, mem_optional, mem_oneOf]
  constructor
  · rintro (⟨byte, hbyte, rfl⟩ | rfl)
    · rcases List.mem_pair.mp hbyte with rfl | rfl
      · exact ⟨some .plus, rfl⟩
      · exact ⟨some .minus, rfl⟩
    · exact ⟨none, rfl⟩
  · rintro ⟨_ | _ | _, rfl⟩
    · exact .inr rfl
    · exact .inl ⟨_, List.mem_cons_self, rfl⟩
    · exact .inl ⟨_, List.mem_cons_of_mem _ List.mem_cons_self, rfl⟩

theorem mem_point_mul {pattern : RegularExpression UInt8} {text : Text} :
    text ∈ (oneOf (utf8 ".") * pattern).matches' ↔
      ∃ after ∈ pattern.matches', 46 :: after = text := by
  rw [mem_mul]
  constructor
  · rintro ⟨point, hpoint, after, hafter, rfl⟩
    obtain ⟨byte, hbyte, rfl⟩ := mem_oneOf.mp hpoint
    obtain rfl := List.mem_singleton.mp hbyte
    exact ⟨after, hafter, rfl⟩
  · rintro ⟨after, hafter, rfl⟩
    exact ⟨_, mem_oneOf.mpr ⟨46, List.mem_singleton.mpr rfl, rfl⟩, after, hafter, rfl⟩

/-- The text of the digits of a mantissa, with their point. -/
def unsignedText (whole : List Nat) (fraction : Option (List Nat)) : Text :=
  (whole.map digitCode ++ Mantissa.fractionCodes fraction).map Nat.toUInt8

theorem mem_mantissa {text : Text} : text ∈ mantissa.matches' ↔
    ∃ (whole : List Nat) (fraction : Option (List Nat)), (∀ digit ∈ whole, digit < 10) ∧
      (∀ values ∈ fraction, ∀ digit ∈ values, digit < 10) ∧ whole ++ fraction.getD [] ≠ [] ∧
      unsignedText whole fraction = text := by
  rw [mantissa, RegularExpression.matches'_add, Language.mem_add, mem_mul, mem_point_mul]
  constructor
  · rintro (⟨before, hbefore, after, hafter, rfl⟩ | ⟨after, hafter, rfl⟩)
    · obtain ⟨whole, hwhole, hsome, rfl⟩ := mem_digits.mp hbefore
      rcases mem_optional.mp hafter with hpoint | rfl
      · obtain ⟨behind, hbehind, rfl⟩ := mem_point_mul.mp hpoint
        obtain ⟨values, hvalues, rfl⟩ := mem_star_digit.mp hbehind
        refine ⟨whole, some values, hwhole, by simpa using hvalues, by simp [hsome], ?_⟩
        rw [unsignedText, List.map_append]
        rfl
      · refine ⟨whole, none, hwhole, by simp, by simpa using hsome, ?_⟩
        rw [unsignedText, List.map_append]
        rfl
    · obtain ⟨values, hvalues, hsome, rfl⟩ := mem_digits.mp hafter
      exact ⟨[], some values, by simp, by simpa using hvalues, by simpa using hsome, rfl⟩
  · rintro ⟨whole, fraction, hwhole, hfraction, hsome, rfl⟩
    cases fraction with
    | none =>
      refine .inl ⟨_, mem_digits.mpr ⟨whole, hwhole, by simpa using hsome, rfl⟩, [], .inr rfl, ?_⟩
      rw [unsignedText, List.map_append]
      rfl
    | some values =>
      have hvalues : ∀ digit ∈ values, digit < 10 := hfraction values rfl
      by_cases hempty : whole = []
      · subst hempty
        exact .inr ⟨_, mem_digits.mpr ⟨values, hvalues, hsome, rfl⟩, rfl⟩
      · have hpoint := mem_point_mul.mpr ⟨_, mem_star_digit.mpr ⟨values, hvalues, rfl⟩, rfl⟩
        refine .inl ⟨_, mem_digits.mpr ⟨whole, hwhole, hempty, rfl⟩, _, .inl hpoint, ?_⟩
        rw [unsignedText, List.map_append]
        rfl

theorem mem_sign_mul_digits {text : Text} : text ∈ (sign * digits).matches' ↔
    ∃ (written : Option Sign) (values : List Nat), (∀ value ∈ values, value < 10) ∧ values ≠ [] ∧
      (Sign.codes written ++ values.map digitCode).map Nat.toUInt8 = text := by
  rw [mem_mul]
  constructor
  · rintro ⟨before, hbefore, after, hafter, rfl⟩
    obtain ⟨written, rfl⟩ := mem_sign.mp hbefore
    obtain ⟨values, hvalues, hsome, rfl⟩ := mem_digits.mp hafter
    exact ⟨written, values, hvalues, hsome, List.map_append⟩
  · rintro ⟨written, values, hvalues, hsome, rfl⟩
    exact ⟨_, mem_sign.mpr ⟨written, rfl⟩, _, mem_digits.mpr ⟨values, hvalues, hsome, rfl⟩,
      List.map_append.symm⟩

theorem mem_exponent {text : Text} : text ∈ exponent.matches' ↔
    ∃ part : ExponentPart, (∀ digit ∈ part.digits, digit < 10) ∧ part.digits ≠ [] ∧
      part.codes.map Nat.toUInt8 = text := by
  rw [exponent, mem_mul]
  constructor
  · rintro ⟨before, hbefore, after, hafter, rfl⟩
    obtain ⟨byte, hbyte, rfl⟩ := mem_oneOf.mp hbefore
    obtain ⟨written, values, hvalues, hsome, rfl⟩ := mem_sign_mul_digits.mp hafter
    rcases List.mem_pair.mp hbyte with rfl | rfl
    · exact ⟨⟨false, written, values⟩, hvalues, hsome, rfl⟩
    · exact ⟨⟨true, written, values⟩, hvalues, hsome, rfl⟩
  · rintro ⟨⟨capital, written, values⟩, hvalues, hsome, rfl⟩
    refine ⟨[(ExponentPart.letter capital).toUInt8], mem_oneOf.mpr ⟨_, ?_, rfl⟩, _,
      mem_sign_mul_digits.mpr ⟨written, values, hvalues, hsome, rfl⟩, rfl⟩
    cases capital
    · exact List.mem_cons_self
    · exact List.mem_cons_of_mem _ List.mem_cons_self

theorem mem_optional_exponent {text : Text} : text ∈ (optional exponent).matches' ↔
    ∃ part : Option ExponentPart, (∀ written ∈ part, ∀ digit ∈ written.digits, digit < 10) ∧
      (∀ written ∈ part, written.digits ≠ []) ∧
      ((part.map ExponentPart.codes).getD []).map Nat.toUInt8 = text := by
  rw [mem_optional, mem_exponent]
  constructor
  · rintro (⟨part, hdigits, hsome, rfl⟩ | rfl)
    · exact ⟨some part, by simpa using hdigits, by simpa using hsome, rfl⟩
    · exact ⟨none, by simp, by simp, rfl⟩
  · rintro ⟨part, hdigits, hsome, rfl⟩
    cases part with
    | none => exact .inr rfl
    | some part => exact .inl ⟨part, hdigits part rfl, hsome part rfl, rfl⟩

/-! ### The grammar as a whole -/

/-- The texts that match are those of the numerals that can be written. -/
theorem mem_numeral_iff {text : Text} :
    text ∈ numeral.matches' ↔ ∃ written : Numeral, written.IsWritten ∧ written.text = text := by
  rw [numeral, mem_mul]
  constructor
  · rintro ⟨first, hfirst, behind, hbehind, rfl⟩
    obtain ⟨sign, rfl⟩ := mem_sign.mp hfirst
    obtain ⟨middle, hmiddle, last, hlast, rfl⟩ := mem_mul.mp hbehind
    obtain ⟨whole, fraction, hwhole, hfraction, hdigits, rfl⟩ := mem_mantissa.mp hmiddle
    obtain ⟨part, hpart, hsome, rfl⟩ := mem_optional_exponent.mp hlast
    refine ⟨⟨⟨sign, whole, fraction⟩, part⟩, ⟨hwhole, hfraction, hdigits, hpart, hsome⟩, ?_⟩
    simp only [Numeral.text, Numeral.codes, Mantissa.codes, unsignedText, List.map_append,
      List.append_assoc]
  · rintro ⟨⟨⟨sign, whole, fraction⟩, part⟩, ⟨hwhole, hfraction, hdigits, hpart, hsome⟩, rfl⟩
    refine ⟨_, mem_sign.mpr ⟨sign, rfl⟩, _, mem_mul.mpr ⟨_,
      mem_mantissa.mpr ⟨whole, fraction, hwhole, hfraction, hdigits, rfl⟩, _,
      mem_optional_exponent.mpr ⟨part, hpart, hsome, rfl⟩, rfl⟩, ?_⟩
    simp only [Numeral.text, Numeral.codes, Mantissa.codes, unsignedText, List.map_append,
      List.append_assoc]

/-- A numeral that can be written is told by its text. -/
theorem eq_of_text_eq {first second : Numeral} (hfirst : first.IsWritten)
    (hsecond : second.IsWritten) (htext : first.text = second.text) : first = second := by
  have hcodes : first.codes = second.codes := by
    have hdecode := hfirst.decodeAll_text
    rw [htext, hsecond.decodeAll_text, Prod.mk.injEq] at hdecode
    exact hdecode.1.symm
  have hscan := hfirst.scan_codes
  rw [hcodes, hsecond.scan_codes, Option.some.injEq, Prod.mk.injEq] at hscan
  exact hscan.1.symm

/-- The text of a numeral is that of an integer when the numeral has neither a point nor an exponent
part. -/
theorem text_mem_integer_iff {written : Numeral} (hwritten : written.IsWritten) :
    written.text ∈ integer.matches' ↔ written.integer?.isSome = true := by
  have hsome : written.integer?.isSome = true ↔
      written.mantissa.fraction = none ∧ written.exponent = none := by
    unfold Numeral.integer?
    split <;> simp_all
  rw [integer, mem_sign_mul_digits, hsome]
  constructor
  · rintro ⟨sign, values, hvalues, hnonempty, htext⟩
    have hinteger : (⟨⟨sign, values, none⟩, none⟩ : Numeral).IsWritten :=
      ⟨hvalues, by simp, by simpa [Mantissa.digits] using hnonempty, by simp, by simp⟩
    have heq := eq_of_text_eq hinteger hwritten (by
      rw [← htext]
      simp [Numeral.text, Numeral.codes, Mantissa.codes, Mantissa.fractionCodes])
    rw [← heq]
    exact ⟨rfl, rfl⟩
  · rintro ⟨hfraction, hexponent⟩
    refine ⟨written.mantissa.sign, written.mantissa.whole, hwritten.whole_lt, ?_, ?_⟩
    · have hdigits := hwritten.digits_ne_nil
      rw [Mantissa.digits, hfraction] at hdigits
      simpa using hdigits
    · simp [Numeral.text, Numeral.codes, Mantissa.codes, Mantissa.fractionCodes, hfraction,
        hexponent]

end Pattern

end Metrology
