import Metrology.Proofs.Expression.Numbers
import Metrology.Proofs.Numeric.Longest
import Metrology.Proofs.Numeric.Ranges

/-!
# Numbers are the longest numerals

Where a number starts, the lexer takes the longest start of the rest of the text that is a numeral.
It is refused when a point follows it or when it is out of the range of doubles, and a text that
starts with no numeral is refused as well (`Lexer.number_spec`). Every numeral is read as a double
as a whole.
-/

set_option autoImplicit false
set_option relaxedAutoImplicit false

namespace Metrology

namespace Lexer

/-- The tokens of a text from a byte offset on. For a whole text, at offset zero, they are those of
`Token.ofText`. -/
def tokensOf (position : Nat) (spaced : Bool) (text : Text) : Except Refusal (List Token) :=
  tokens (Utf8.decodeAll text).2 position spaced (Utf8.decodeAll text).1

/-- A text starts with a number: its longest start that is a numeral is in the range of doubles, and
no point stands behind it. -/
structure StartsWithNumber (text longest : Text) (value : Float) : Prop where
  isLongest : Pattern.IsLongest Pattern.numeral text longest
  no_point : (text.drop longest.length).head? ≠ some 46
  double?_eq : Leading.double? longest = some value

section

variable {text : Text} {codes : List Nat} {ending : Option Utf8.Fault}
  (hdecode : Utf8.decodeAll text = (codes, ending))

include hdecode

/-- A text starts with a number when scanning finds a numeral that the lexer accepts. -/
theorem startsWithNumber_iff {found : Numeral} {rest : List Nat}
    (hscan : Numeral.scan codes = some (found, rest)) {longest : Text} {value : Float} :
    StartsWithNumber text longest value ↔ longest = found.text ∧ rest.head? ≠ some 46 ∧
      found.convert.inRange = true ∧ found.convert.value = value := by
  have hwritten := Numeral.isWritten_of_scan hscan
  have hlongest := Numeral.isLongest_of_scan hdecode hscan
  have hpoint := Utf8.head?_eq_iff (hwritten.decodeAll_drop hdecode (Numeral.codes_scan hscan))
    (show (46 : UInt8).toNat < 0x80 by decide)
  have hdouble : Leading.double? found.text = some value ↔
      found.convert.inRange = true ∧ found.convert.value = value := by
    rw [hwritten.double?_text]
    split <;> simp_all
  constructor
  · rintro ⟨hother, hnone, hvalue⟩
    obtain rfl := hother.unique hlongest
    exact ⟨rfl, mt hpoint.mpr hnone, hdouble.mp hvalue⟩
  · rintro ⟨rfl, hnone, hvalue⟩
    exact ⟨hlongest, mt hpoint.mp hnone, hdouble.mpr hvalue⟩

theorem number_of_startsWithNumber {longest : Text} {value : Float}
    (hnumber : StartsWithNumber text longest value) :
    ∃ integer behind, number codes = .ok ⟨.number value integer, longest.map UInt8.toNat, behind⟩ ∧
      (integer.isSome = true ↔ longest ∈ Pattern.integer.matches') ∧
      Utf8.decodeAll (text.drop longest.length) = (behind, ending) := by
  cases hscan : Numeral.scan codes with
  | none =>
    exact absurd hnumber.isLongest.starts
      (Numeral.not_prefix_of_scan hdecode hscan hnumber.isLongest.mem)
  | some found =>
    obtain ⟨found, rest⟩ := found
    have hwritten := Numeral.isWritten_of_scan hscan
    obtain ⟨rfl, hpoint, hrange, rfl⟩ := (startsWithNumber_iff hdecode hscan).mp hnumber
    refine ⟨found.integer?, rest, ?_, (Pattern.text_mem_integer_iff hwritten).symm,
      hwritten.decodeAll_drop hdecode (Numeral.codes_scan hscan)⟩
    rw [number, hscan, hwritten.map_toNat_text]
    simp only [if_neg hpoint, if_pos hrange]

theorem exists_number_eq_error
    (hnone : ∀ longest value, ¬ StartsWithNumber text longest value) :
    ∃ fault, number codes = .error ⟨fault, 0⟩ := by
  rw [number]
  cases hscan : Numeral.scan codes with
  | none => exact ⟨_, rfl⟩
  | some found =>
    obtain ⟨found, rest⟩ := found
    dsimp only
    split
    · exact ⟨_, rfl⟩
    · next hpoint =>
      split
      · next hrange =>
        exact absurd ((startsWithNumber_iff hdecode hscan).mpr ⟨rfl, hpoint, hrange, rfl⟩)
          (hnone _ _)
      · exact ⟨_, rfl⟩

end

/-- Where a number starts. When the longest start of the text that is a numeral has no point behind
it and is in the range of doubles, it is one token with its value, an integer exactly when it
matches `[+-]?D+`, and reading goes on right behind it. In all other cases the text is refused where
the number starts. The reading of doubles takes every numeral as a whole and always finds a number;
it is out of range exactly when the number is not zero and too large or too small for a double. -/
theorem number_spec {first : UInt8} (hstarts : startsNumber first.toNat = true) (after : Text) :
    ∃ rest ending, Utf8.decodeAll (first :: after) = (first.toNat :: rest, ending) ∧
      (∀ longest value, StartsWithNumber (first :: after) longest value → ∃ integer behind,
        lexeme ending first.toNat rest =
          .ok ⟨.number value integer, longest.map UInt8.toNat, behind⟩ ∧
        (integer.isSome = true ↔ longest ∈ Pattern.integer.matches') ∧
        Utf8.decodeAll ((first :: after).drop longest.length) = (behind, ending) ∧
        ∀ position spaced, tokensOf position spaced (first :: after) =
          (tokensOf (position + longest.length) false ((first :: after).drop longest.length)).map
            (⟨.number value integer, longest, position, spaced⟩ :: ·)) ∧
      ((∀ longest value, ¬ StartsWithNumber (first :: after) longest value) → ∃ fault,
        lexeme ending first.toNat rest = .error ⟨fault, 0⟩ ∧
        ∀ position spaced, tokensOf position spaced (first :: after) = .error ⟨fault, position⟩) ∧
      ∀ text ∈ Pattern.numeral.matches', ∃ numeral,
        Numeral.scan (text.map UInt8.toNat) = some (numeral, []) ∧
        Leading.conversion? (text.map UInt8.toNat) = some numeral.convert ∧
        (Leading.double? text = none ↔
          numeral.number ≠ 0 ∧
            (Binary64.IsTooLarge numeral.number ∨ Binary64.IsTooSmall numeral.number)) := by
  have hascii : first.toNat < 0x80 := by
    simp [startsNumber, isDigit] at hstarts
    omega
  have hdecode := Utf8.decodeAll_cons_ascii hascii after
  have hblank := isBlank_of_startsNumber hstarts
  refine ⟨_, _, hdecode, fun longest value hnumber ↦ ?_, fun hnone ↦ ?_, fun text hmem ↦ ?_⟩
  · obtain ⟨integer, behind, hread, hinteger, hbehind⟩ := number_of_startsWithNumber hdecode hnumber
    have hlexeme := (@lexeme_of_startsNumber (Utf8.decodeAll after).2 _ _ hstarts).trans hread
    have htext : Utf8.encodeAll (longest.map UInt8.toNat) = longest := by
      obtain ⟨numeral, hwritten, rfl⟩ := Pattern.mem_numeral_iff.mp hnumber.isLongest.mem
      rw [hwritten.map_toNat_text, Utf8.encodeAll_of_decodeAll hwritten.decodeAll_text]
    refine ⟨integer, behind, hlexeme, hinteger, hbehind, fun position spaced ↦ ?_⟩
    rw [tokensOf, hdecode, tokens_cons_of_lexeme hblank hlexeme, Utf8.sizeAll, htext, tokensOf,
      hbehind]
  · obtain ⟨fault, hfault⟩ := exists_number_eq_error hdecode hnone
    have hlexeme := (@lexeme_of_startsNumber (Utf8.decodeAll after).2 _ _ hstarts).trans hfault
    refine ⟨fault, hlexeme, fun position spaced ↦ ?_⟩
    rw [tokensOf, hdecode, tokens_cons_of_failure (by simp [hblank]) hlexeme, Nat.add_zero]
  · obtain ⟨numeral, hwritten, rfl⟩ := Pattern.mem_numeral_iff.mp hmem
    refine ⟨numeral, ?_, ?_, ?_⟩
    · rw [hwritten.map_toNat_text, hwritten.scan_codes]
    · rw [hwritten.map_toNat_text, hwritten.conversion?_codes]
    · have hnone : Leading.double? numeral.text = none ↔ ¬ numeral.convert.inRange = true := by
        rw [hwritten.double?_text]
        split <;> simp_all
      rw [hnone, hwritten.inRange_convert_iff, not_or, not_and_or, not_not, not_not]

/-- The letter of a unit is no exponent part. -/
theorem number_spec_electronvolt :
    startsNumber (49 : UInt8).toNat = true ∧ ∃ value integer,
      StartsWithNumber (utf8 "1eV") (utf8 "1") value ∧ integer.isSome = true ∧
      tokensOf 0 false (utf8 "1eV") = (tokensOf 1 false (utf8 "eV")).map
        (⟨.number value integer, utf8 "1", 0, false⟩ :: ·) := by
  have hstarts : startsNumber (49 : UInt8).toNat = true := rfl
  have hdecode : Utf8.decodeAll (utf8 "1eV") = ([49, 101, 86], none) :=
    @Utf8.decodeAll_encodeAll [49, 101, 86] (by decide)
  have hone : Numeral.ofInt 1 = ⟨⟨none, [1], none⟩, none⟩ := by cbv
  have hrange := @Numeral.inRange_convert_ofInt 1 (by decide)
  rw [hone] at hrange
  have hscan : Numeral.scan [49, 101, 86] = some (⟨⟨none, [1], none⟩, none⟩, [101, 86]) := rfl
  have hnumber := (startsWithNumber_iff hdecode hscan).mpr ⟨rfl, by decide, hrange, rfl⟩
  obtain ⟨rest, ending, _, hread, _⟩ := number_spec hstarts (utf8 "eV")
  obtain ⟨integer, behind, _, hinteger, _, htokens⟩ := hread _ _ hnumber
  refine ⟨hstarts, _, integer, hnumber, hinteger.mpr ?_, htokens 0 false⟩
  exact Pattern.mem_sign_mul_digits.mpr ⟨none, [1], by decide, by decide, rfl⟩

end Lexer

end Metrology
