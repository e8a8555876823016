import Metrology.Proofs.Numeric.Patterns

/-!
# Scanning finds the longest numeral

Scanning reads on behind a numeral, whatever follows it: it always finds one there that takes at
least as much (`Numeral.IsWritten.exists_scan_append`). What it finds at the start of a text is
therefore the longest start of the text that is a numeral (`Numeral.isLongest_of_scan`), and a text
in which it finds none does not start with any (`Numeral.not_prefix_of_scan`).
-/

set_option autoImplicit false
set_option relaxedAutoImplicit false

namespace Metrology

/-- The longest start of a text that matches a pattern. -/
structure Pattern.IsLongest (pattern : RegularExpression UInt8) (text longest : Text) : Prop where
  mem : longest ∈ pattern.matches'
  starts : longest <+: text
  length_le : ∀ other ∈ pattern.matches', other <+: text → other.length ≤ longest.length

theorem Pattern.IsLongest.unique {pattern : RegularExpression UInt8} {text first second : Text}
    (hfirst : IsLongest pattern text first) (hsecond : IsLongest pattern text second) :
    first = second :=
  (List.prefix_of_prefix_length_le hfirst.starts hsecond.starts
    (hsecond.length_le first hfirst.mem hfirst.starts)).eq_of_length_le
      (hfirst.length_le second hsecond.mem hsecond.starts)

/-! ### Scanning goes on behind digits -/

theorem isDigit_head_scanDigits (codes : List Nat) :
    ∀ code ∈ (scanDigits codes).2.head?, isDigit code = false := by
  intro code hcode
  have hnot := List.head?_dropWhile_not isDigit codes
  rw [show codes.dropWhile isDigit = (scanDigits codes).2 from rfl, hcode] at hnot
  exact hnot

theorem scanDigits_suffix (codes : List Nat) : (scanDigits codes).2 <:+ codes :=
  ⟨_, codes_scanDigits codes⟩

namespace Numeral

/-- Digits go on with the digits behind them. -/
theorem scanDigits_map_append {digits : List Nat} (hdigits : ∀ digit ∈ digits, digit < 10)
    (rest : List Nat) : scanDigits (digits.map digitCode ++ rest) =
      (digits ++ (scanDigits rest).1, (scanDigits rest).2) := by
  have hten : ∀ digit ∈ digits ++ (scanDigits rest).1, digit < 10 := by
    intro digit hdigit
    exact (List.mem_append.mp hdigit).elim (hdigits digit) lt_ten_of_mem_scanDigits
  have hread := scanDigits_append hten (isDigit_head_scanDigits rest)
  rwa [List.map_append, List.append_assoc, codes_scanDigits] at hread

/-- An exponent part goes on with the digits behind it. -/
theorem exists_scanExponent_append {part : ExponentPart} (hten : ∀ digit ∈ part.digits, digit < 10)
    (hsome : part.digits ≠ []) (rest : List Nat) :
    ∃ longer, ExponentPart.scan (part.codes ++ rest) = (longer, (scanDigits rest).2) := by
  obtain ⟨capital, sign, digits⟩ := part
  refine ⟨some ⟨capital, sign, digits ++ (scanDigits rest).1⟩, ?_⟩
  have hread := @scanExponent_append ⟨capital, sign, digits ++ (scanDigits rest).1⟩
    (scanDigits rest).2 (fun digit hdigit ↦ (List.mem_append.mp hdigit).elim (hten digit)
      lt_ten_of_mem_scanDigits) (by simp_all) (isDigit_head_scanDigits rest)
  rwa [ExponentPart.codes, List.map_append, List.cons_append, List.append_assoc, List.append_assoc,
    codes_scanDigits, ← List.append_assoc, ← List.cons_append] at hread

theorem scan_of_mantissa {codes rest : List Nat} {mantissa : Mantissa}
    (hscan : Mantissa.scan codes = (mantissa, rest)) (hdigits : mantissa.digits ≠ []) :
    scan codes = some (⟨mantissa, (ExponentPart.scan rest).1⟩, (ExponentPart.scan rest).2) := by
  rw [scan, hscan]
  exact if_neg hdigits

namespace IsWritten

variable {numeral : Numeral} (hwritten : numeral.IsWritten)

include hwritten

/-- A mantissa goes on with what is behind it. -/
theorem exists_scan_mantissa_append (rest : List Nat) :
    ∃ longer behind, Mantissa.scan (numeral.mantissa.codes ++ rest) = (longer, behind) ∧
      longer.digits ≠ [] ∧ behind <:+ rest := by
  have hsome := hwritten.digits_ne_nil
  simp only [Mantissa.scan, hwritten.scanSign_mantissa, scanDigits_map_append hwritten.whole_lt]
  refine ⟨_, _, rfl, ?_⟩
  -- without a point of its own, a mantissa may take one behind the digits that follow it
  cases hfraction : numeral.mantissa.fraction with
  | none =>
    have hsuffix : ∀ codes, (Mantissa.scanFraction codes).2 <:+ codes :=
      fun codes ↦ ⟨_, Mantissa.codes_scanFraction codes⟩
    rw [Mantissa.digits, hfraction] at hsome
    refine ⟨fun hnil ↦ ?_, (hsuffix _).trans (scanDigits_suffix rest)⟩
    simp_all [Mantissa.digits]
  | some values =>
    have hpoint : scanDigits (Mantissa.fractionCodes (some values) ++ rest) =
        ([], 46 :: (values.map digitCode ++ rest)) := rfl
    have hvalues := scanDigits_map_append (hwritten.fraction_lt values hfraction) rest
    rw [Mantissa.digits, hfraction] at hsome
    simp only [hpoint, Mantissa.scanFraction, if_pos, hvalues]
    refine ⟨fun hnil ↦ ?_, scanDigits_suffix rest⟩
    simp_all [Mantissa.digits]

/-- Scanning finds a numeral where one starts, and leaves no more than what is behind it. -/
theorem exists_scan_append (rest : List Nat) :
    ∃ longer behind, scan (numeral.codes ++ rest) = some (longer, behind) ∧ behind <:+ rest := by
  rw [codes, List.append_assoc]
  cases hexponent : numeral.exponent with
  | none =>
    obtain ⟨longer, middle, hscan, hdigits, hmiddle⟩ := hwritten.exists_scan_mantissa_append rest
    exact ⟨_, _, scan_of_mantissa hscan hdigits,
      (show _ <:+ middle from ⟨_, ExponentPart.codes_scan middle⟩).trans hmiddle⟩
  | some part =>
    -- the letter ends the mantissa, so only the digits of the exponent part go on
    obtain ⟨longer, hlonger⟩ := exists_scanExponent_append (hwritten.exponent_lt part hexponent)
      (hwritten.exponent_ne_nil part hexponent) rest
    have hends : EndsMantissa (part.codes ++ rest) := by
      intro code hcode
      cases hcode
      cases part.capital <;> decide
    have hscan := scan_of_mantissa (hwritten.scan_mantissa hends) hwritten.digits_ne_nil
    rw [hlonger] at hscan
    exact ⟨_, _, hscan, scanDigits_suffix rest⟩

end IsWritten

/-- No numeral at the start of code points takes more than the one that scanning finds. -/
theorem length_le_of_scan {codes rest : List Nat} {found numeral : Numeral}
    (hscan : scan codes = some (found, rest)) (hwritten : numeral.IsWritten)
    (hstarts : numeral.codes <+: codes) : numeral.codes.length ≤ found.codes.length := by
  obtain ⟨behind, rfl⟩ := hstarts
  obtain ⟨longer, left, hlonger, hsuffix⟩ := hwritten.exists_scan_append behind
  rw [hscan, Option.some.injEq, Prod.mk.injEq] at hlonger
  obtain ⟨rfl, rfl⟩ := hlonger
  have hlength := congrArg List.length (codes_scan hscan)
  rw [List.length_append, List.length_append] at hlength
  have hle := hsuffix.length_le
  omega

/-! ### Numerals at the start of a text -/

section

variable {text : Text} {codes : List Nat} {ending : Option Utf8.Fault}
  (hdecode : Utf8.decodeAll text = (codes, ending))

include hdecode

/-- A text starts with a numeral when its code points do. The other code points are those of the
rest. -/
theorem IsWritten.text_prefix_iff {numeral : Numeral} (hwritten : numeral.IsWritten) :
    numeral.text <+: text ↔ numeral.codes <+: codes := by
  constructor
  · rintro ⟨after, rfl⟩
    rw [Utf8.decodeAll_append after hwritten.decodeAll_text, Prod.mk.injEq] at hdecode
    exact ⟨_, hdecode.1⟩
  · rintro ⟨rest, rfl⟩
    have hstarts := Utf8.encodeAll_prefix_of_decodeAll hdecode
    rw [Utf8.encodeAll_append, Utf8.encodeAll_of_decodeAll hwritten.decodeAll_text] at hstarts
    exact (List.prefix_append _ _).trans hstarts

theorem IsWritten.decodeAll_drop {numeral : Numeral} (hwritten : numeral.IsWritten)
    {rest : List Nat} (hcodes : numeral.codes ++ rest = codes) :
    Utf8.decodeAll (text.drop numeral.text.length) = (rest, ending) := by
  obtain ⟨after, rfl⟩ := (hwritten.text_prefix_iff hdecode).mpr ⟨rest, hcodes⟩
  rw [Utf8.decodeAll_append after hwritten.decodeAll_text, ← hcodes, Prod.mk.injEq,
    List.append_cancel_left_eq] at hdecode
  rw [List.drop_left]
  exact Prod.ext hdecode.1 hdecode.2

/-- What scanning finds is the longest start of a text that is a numeral. -/
theorem isLongest_of_scan {found : Numeral} {rest : List Nat}
    (hscan : scan codes = some (found, rest)) :
    Pattern.IsLongest Pattern.numeral text found.text := by
  have hfound := isWritten_of_scan hscan
  refine ⟨Pattern.mem_numeral_iff.mpr ⟨found, hfound, rfl⟩,
    (hfound.text_prefix_iff hdecode).mpr ⟨rest, codes_scan hscan⟩, fun other hother hstarts ↦ ?_⟩
  obtain ⟨numeral, hwritten, rfl⟩ := Pattern.mem_numeral_iff.mp hother
  simpa [Numeral.text] using
    length_le_of_scan hscan hwritten ((hwritten.text_prefix_iff hdecode).mp hstarts)

/-- Where scanning finds nothing, no numeral starts. -/
theorem not_prefix_of_scan (hscan : scan codes = none) {other : Text}
    (hother : other ∈ Pattern.numeral.matches') : ¬ other <+: text := by
  obtain ⟨numeral, hwritten, rfl⟩ := Pattern.mem_numeral_iff.mp hother
  rw [hwritten.text_prefix_iff hdecode]
  rintro ⟨rest, rfl⟩
  obtain ⟨longer, behind, hlonger, _⟩ := hwritten.exists_scan_append rest
  rw [hscan] at hlonger
  cases hlonger

end

end Numeral

end Metrology
