import Metrology.Numeric.Leading
import Metrology.Proofs.Numeric.Integers

/-!
# Numerals are read back

A numeral that was found at the start of a text is found again in its own characters, and takes all
of them, also in front of what cannot go on with it (`Numeral.IsWritten.scan_append`). The reading
of doubles knows more forms than numerals, but the text of a numeral has none of the letters that
the other forms start with. It is therefore read as that numeral and never as no number
(`Numeral.conversion?_of_scan`).
-/

set_option autoImplicit false
set_option relaxedAutoImplicit false

namespace Metrology

/-- The bytes of ASCII characters are their code points. -/
theorem Utf8.map_toNat_encodeAll {codes : List Nat} (hascii : ∀ code ∈ codes, code < 0x80) :
    (encodeAll codes).map UInt8.toNat = codes := by
  induction codes with
  | nil => rfl
  | cons code rest ih =>
    have hcode := hascii code (by simp)
    have hbyte : code.toUInt8.toNat = code := Nat.mod_eq_of_lt (by omega)
    have hrest := ih fun other hother ↦ hascii other (List.mem_cons_of_mem code hother)
    rw [encodeAll] at hrest ⊢
    rw [List.flatMap_cons, encode, if_pos hcode, List.map_append, hrest, List.map_singleton, hbyte,
      List.singleton_append]

namespace Numeral

/-! ### Numerals that can be written -/

/-- The digits of a numeral are below ten. There is one in the mantissa at least, and one in an
exponent part. -/
structure IsWritten (numeral : Numeral) : Prop where
  whole_lt : ∀ digit ∈ numeral.mantissa.whole, digit < 10
  fraction_lt : ∀ fraction ∈ numeral.mantissa.fraction, ∀ digit ∈ fraction, digit < 10
  digits_ne_nil : numeral.mantissa.digits ≠ []
  exponent_lt : ∀ part ∈ numeral.exponent, ∀ digit ∈ part.digits, digit < 10
  exponent_ne_nil : ∀ part ∈ numeral.exponent, part.digits ≠ []

theorem lt_ten_of_mem_scanDigits {codes : List Nat} {digit : Nat}
    (hdigit : digit ∈ (scanDigits codes).1) : digit < 10 := by
  obtain ⟨code, hcode, rfl⟩ := List.mem_map.mp hdigit
  have hisDigit := List.all_eq_true.mp List.all_takeWhile code hcode
  simp only [isDigit, Bool.and_eq_true, decide_eq_true_eq] at hisDigit
  rw [digitValue]
  omega

theorem lt_ten_of_mem_scanFraction {codes fraction : List Nat}
    (hfraction : fraction ∈ (Mantissa.scanFraction codes).1) {digit : Nat}
    (hdigit : digit ∈ fraction) : digit < 10 := by
  unfold Mantissa.scanFraction at hfraction
  split at hfraction
  · cases hfraction
  · split at hfraction
    · cases hfraction
      exact lt_ten_of_mem_scanDigits hdigit
    · cases hfraction

theorem exponent_of_scan {codes : List Nat} {part : ExponentPart}
    (hpart : part ∈ (ExponentPart.scan codes).1) :
    (∀ digit ∈ part.digits, digit < 10) ∧ part.digits ≠ [] := by
  unfold ExponentPart.scan at hpart
  split at hpart
  · cases hpart
  · split at hpart
    · dsimp only at hpart
      split at hpart
      · cases hpart
      · next rest _ _ digits _ hne hscan =>
        cases hpart
        have hdigits : (scanDigits (Sign.scan rest).2).1 = digits := by rw [hscan]
        exact ⟨fun digit hdigit ↦ lt_ten_of_mem_scanDigits (hdigits ▸ hdigit), hne⟩
    · cases hpart

/-- What is found can be written. -/
theorem isWritten_of_scan {codes rest : List Nat} {numeral : Numeral}
    (hscan : scan codes = some (numeral, rest)) : numeral.IsWritten := by
  simp only [scan] at hscan
  split at hscan
  · cases hscan
  · next hdigits =>
    cases hscan
    exact ⟨fun _ ↦ lt_ten_of_mem_scanDigits,
      fun _ hfraction _ ↦ lt_ten_of_mem_scanFraction hfraction, hdigits,
      fun _ hpart ↦ (exponent_of_scan hpart).1, fun _ hpart ↦ (exponent_of_scan hpart).2⟩

/-! ### They are found again -/

/-- No digit and no point starts here. -/
def EndsMantissa (codes : List Nat) : Prop :=
  ∀ code ∈ codes.head?, isDigit code = false ∧ code ≠ 46

/-- No digit, no point and no exponent part starts here. -/
structure EndsNumeral (codes : List Nat) : Prop where
  mantissa : EndsMantissa codes
  exponent : ExponentPart.scan codes = (none, codes)

theorem EndsInteger.endsNumeral {codes : List Nat} (hcodes : EndsInteger codes) :
    EndsNumeral codes where
  mantissa := fun code hcode ↦ ⟨(hcodes code hcode).1, (hcodes code hcode).2.1⟩
  exponent := by
    cases codes with
    | nil => rfl
    | cons code rest =>
      obtain ⟨_, _, hcapital, hsmall⟩ := hcodes code rfl
      exact if_neg (not_or.mpr ⟨hcapital, hsmall⟩)

theorem scanFraction_append {fraction : Option (List Nat)} {rest : List Nat}
    (hfraction : ∀ digits ∈ fraction, ∀ digit ∈ digits, digit < 10) (hrest : EndsMantissa rest) :
    Mantissa.scanFraction (Mantissa.fractionCodes fraction ++ rest) = (fraction, rest) := by
  cases fraction with
  | none =>
    cases rest with
    | nil => rfl
    | cons code rest => exact if_neg (hrest code rfl).2
  | some digits =>
    have hread := scanDigits_append (hfraction digits rfl) fun code hcode ↦ (hrest code hcode).1
    rw [Mantissa.fractionCodes, List.cons_append, Mantissa.scanFraction, if_pos rfl, hread]

/-- An exponent part is found in front of anything but a digit. -/
theorem scanExponent_append {part : ExponentPart} {rest : List Nat}
    (hten : ∀ digit ∈ part.digits, digit < 10) (hsome : part.digits ≠ [])
    (hrest : ∀ code ∈ rest.head?, isDigit code = false) :
    ExponentPart.scan (part.codes ++ rest) = (some part, rest) := by
  obtain ⟨capital, sign, digits⟩ := part
  obtain ⟨digit, others, rfl⟩ := List.exists_cons_of_ne_nil hsome
  have hsign : Sign.scan (Sign.codes sign ++ ((digit :: others).map digitCode ++ rest)) =
      (sign, (digit :: others).map digitCode ++ rest) := by
    refine scanSign_append fun code hcode ↦ ?_
    cases hcode
    rw [digitCode]
    omega
  have hdigits := scanDigits_append hten hrest
  have hletter : ExponentPart.letter capital = ExponentPart.letter true ∨
      ExponentPart.letter capital = ExponentPart.letter false := by
    cases capital <;> decide
  rw [ExponentPart.codes, List.cons_append, List.append_assoc, ExponentPart.scan, if_pos hletter]
  simp only [hsign, hdigits]
  cases capital <;> rfl

theorem isDigit_head_fractionCodes {fraction : Option (List Nat)} {rest : List Nat}
    (hrest : EndsMantissa rest) :
    ∀ code ∈ (Mantissa.fractionCodes fraction ++ rest).head?, isDigit code = false := by
  cases fraction with
  | none => exact fun code hcode ↦ (hrest code hcode).1
  | some digits =>
    intro code hcode
    cases hcode
    rfl

theorem mem_of_mem_signCodes {sign : Option Sign} {code : Nat} (hcode : code ∈ Sign.codes sign) :
    code ∈ [43, 45] := by
  rcases sign with _ | _ | _
  · cases hcode
  · exact List.mem_singleton.mp hcode ▸ List.mem_cons_self
  · exact List.mem_singleton.mp hcode ▸ List.mem_cons_of_mem _ List.mem_cons_self

theorem isDigit_of_mem_map {digits : List Nat} (hten : ∀ digit ∈ digits, digit < 10) {code : Nat}
    (hcode : code ∈ digits.map digitCode) : isDigit code = true := by
  obtain ⟨digit, hdigit, rfl⟩ := List.mem_map.mp hcode
  exact isDigit_digitCode (hten digit hdigit)

namespace IsWritten

variable {numeral : Numeral} (hwritten : numeral.IsWritten)

include hwritten

/-- A mantissa starts with a digit or a point behind its sign. -/
theorem exists_head_unsigned :
    ∃ first others, numeral.mantissa.whole.map digitCode ++
      Mantissa.fractionCodes numeral.mantissa.fraction = first :: others ∧
        (isDigit first = true ∨ first = 46) := by
  obtain ⟨⟨sign, whole, fraction⟩, exponent⟩ := numeral
  cases whole with
  | cons digit others => exact ⟨_, _, rfl, .inl (isDigit_digitCode (hwritten.whole_lt _ (by simp)))⟩
  | nil =>
    cases fraction with
    | none => exact absurd rfl hwritten.digits_ne_nil
    | some digits => exact ⟨46, digits.map digitCode, rfl, .inr rfl⟩

theorem scanSign_mantissa (rest : List Nat) :
    Sign.scan (numeral.mantissa.codes ++ rest) = (numeral.mantissa.sign,
      numeral.mantissa.whole.map digitCode ++
        (Mantissa.fractionCodes numeral.mantissa.fraction ++ rest)) := by
  obtain ⟨first, others, hunsigned, hfirst⟩ := hwritten.exists_head_unsigned
  rw [Mantissa.codes, List.append_assoc, List.append_assoc, scanSign_append]
  intro code hcode
  rw [← List.append_assoc, hunsigned] at hcode
  cases hcode
  rcases hfirst with hdigit | rfl
  · simp only [isDigit, Bool.and_eq_true, decide_eq_true_eq] at hdigit
    omega
  · decide

theorem scan_mantissa {rest : List Nat} (hrest : EndsMantissa rest) :
    Mantissa.scan (numeral.mantissa.codes ++ rest) = (numeral.mantissa, rest) := by
  simp only [Mantissa.scan, hwritten.scanSign_mantissa,
    scanDigits_append hwritten.whole_lt (isDigit_head_fractionCodes hrest),
    scanFraction_append hwritten.fraction_lt hrest]

omit hwritten in
theorem endsMantissa_exponent_append {rest : List Nat} (hrest : EndsNumeral rest) :
    EndsMantissa ((numeral.exponent.map ExponentPart.codes).getD [] ++ rest) := by
  intro code hcode
  cases hexponent : numeral.exponent with
  | none =>
    rw [hexponent] at hcode
    exact hrest.mantissa code hcode
  | some part =>
    rw [hexponent] at hcode
    cases hcode
    cases part.capital <;> decide

theorem scan_exponent_append {rest : List Nat} (hrest : EndsNumeral rest) :
    ExponentPart.scan ((numeral.exponent.map ExponentPart.codes).getD [] ++ rest) =
      (numeral.exponent, rest) := by
  cases hexponent : numeral.exponent with
  | none => exact hrest.exponent
  | some part =>
    exact scanExponent_append (hwritten.exponent_lt _ hexponent)
      (hwritten.exponent_ne_nil _ hexponent) fun code hcode ↦ (hrest.mantissa code hcode).1

/-- A numeral is found in front of anything that cannot go on with it. -/
theorem scan_append {rest : List Nat} (hrest : EndsNumeral rest) :
    scan (numeral.codes ++ rest) = some (numeral, rest) := by
  rw [scan, codes, List.append_assoc]
  simp only [hwritten.scan_mantissa (endsMantissa_exponent_append hrest),
    if_neg hwritten.digits_ne_nil, hwritten.scan_exponent_append hrest]

/-- A numeral takes all of its own characters. -/
theorem scan_codes : scan numeral.codes = some (numeral, []) := by
  rw [← List.append_nil numeral.codes]
  exact hwritten.scan_append (EndsInteger.endsNumeral (by simp [EndsInteger]))

/-- The characters of a numeral are digits, signs, a point and the letters of an exponent part. -/
theorem isDigit_or_mem {code : Nat} (hcode : code ∈ numeral.codes) :
    isDigit code = true ∨ code ∈ [43, 45, 46, 69, 101] := by
  have hsign : ∀ {sign}, code ∈ Sign.codes sign → code ∈ [43, 45, 46, 69, 101] :=
    fun hmem ↦ List.mem_append_left [46, 69, 101] (mem_of_mem_signCodes hmem)
  rw [codes, Mantissa.codes, List.mem_append, List.mem_append, List.mem_append] at hcode
  rcases hcode with ((hmem | hmem) | hmem) | hmem
  · exact .inr (hsign hmem)
  · exact .inl (isDigit_of_mem_map hwritten.whole_lt hmem)
  · cases hfraction : numeral.mantissa.fraction with
    | none =>
      rw [hfraction] at hmem
      cases hmem
    | some digits =>
      rw [hfraction] at hmem
      rcases List.mem_cons.mp hmem with rfl | hdigit
      · exact .inr (by decide)
      · exact .inl (isDigit_of_mem_map (hwritten.fraction_lt _ hfraction) hdigit)
  · cases hexponent : numeral.exponent with
    | none =>
      rw [hexponent] at hmem
      cases hmem
    | some part =>
      rw [hexponent] at hmem
      rcases List.mem_cons.mp hmem with rfl | hrest
      · exact .inr (by cases part.capital <;> decide)
      · rcases List.mem_append.mp hrest with hmem | hdigit
        · exact .inr (hsign hmem)
        · exact .inl (isDigit_of_mem_map (hwritten.exponent_lt _ hexponent) hdigit)

end IsWritten

end Numeral

/-! ### They are no other double -/

namespace Leading

theorem startsWithWord_eq_false {word : String} {letter : Char} {codes : List Nat}
    (hletter : letter ∈ word.toList)
    (habsent : ∀ code ∈ codes, smallLetter code ≠ letter.toNat) :
    startsWithWord word codes = false := by
  rw [startsWithWord, ← Bool.not_eq_true, List.isPrefixOf_iff_prefix]
  intro hstarts
  obtain ⟨code, hcode, heq⟩ :=
    List.mem_map.mp (hstarts.subset (List.mem_map_of_mem (f := Char.toNat) hletter))
  exact habsent code hcode heq

end Leading

namespace Numeral

/-- No character of a numeral is white space or a letter that stands in `inf`, `nan` or `0x`. -/
theorem IsWritten.smallLetter_not_mem {numeral : Numeral} (hwritten : numeral.IsWritten)
    {code : Nat} (hcode : code ∈ numeral.codes) :
    code < 0x80 ∧ Leading.isSpace code = false ∧ Leading.smallLetter code ∉ [105, 110, 120] := by
  have hlt : code < 0x80 := by
    rcases hwritten.isDigit_or_mem hcode with hdigit | hother
    · simp only [isDigit, Bool.and_eq_true, decide_eq_true_eq] at hdigit
      omega
    · exact (by decide : ∀ other ∈ [43, 45, 46, 69, 101], other < 0x80) code hother
  exact ⟨hlt, (by decide : ∀ other < 0x80, isDigit other = true ∨ other ∈ [43, 45, 46, 69, 101] →
    Leading.isSpace other = false ∧ Leading.smallLetter other ∉ [105, 110, 120]) code hlt
      (hwritten.isDigit_or_mem hcode)⟩

/-- The text of a numeral. -/
def text (numeral : Numeral) : Text :=
  numeral.codes.map Nat.toUInt8

theorem IsWritten.decodeAll_text {numeral : Numeral} (hwritten : numeral.IsWritten) :
    Utf8.decodeAll numeral.text = (numeral.codes, none) :=
  decodeAll_map fun _ hcode ↦ (hwritten.smallLetter_not_mem hcode).1

theorem IsWritten.map_toNat_text {numeral : Numeral} (hwritten : numeral.IsWritten) :
    numeral.text.map UInt8.toNat = numeral.codes := by
  rw [← Utf8.encodeAll_of_decodeAll hwritten.decodeAll_text,
    Utf8.map_toNat_encodeAll fun code hcode ↦ (hwritten.smallLetter_not_mem hcode).1]

/-- The reading of doubles takes the characters of a numeral for that numeral. -/
theorem IsWritten.conversion?_codes {numeral : Numeral} (hwritten : numeral.IsWritten) :
    Leading.conversion? numeral.codes = some numeral.convert := by
  have hspace : numeral.codes.dropWhile Leading.isSpace = numeral.codes := by
    have hvisible : ∀ code ∈ numeral.codes, Leading.isSpace code = false :=
      fun code hcode ↦ (hwritten.smallLetter_not_mem hcode).2.1
    cases hcodes : numeral.codes with
    | nil => rfl
    | cons first others => simp [hvisible first (by simp [hcodes])]
  have hword : ∀ (word : String) (letter : Char), letter ∈ word.toList →
      letter.toNat ∈ [105, 110, 120] →
      Leading.startsWithWord word (Sign.scan numeral.codes).2 = false := by
    intro word letter hletter hmem
    refine Leading.startsWithWord_eq_false hletter fun code hcode heq ↦ ?_
    have hcodes : code ∈ numeral.codes := by
      rw [← Sign.codes_scan numeral.codes]
      exact List.mem_append_right _ hcode
    exact (hwritten.smallLetter_not_mem hcodes).2.2 (heq ▸ hmem)
  simp only [Leading.conversion?, hspace, hword "inf" 'i' (by decide) (by decide),
    hword "nan" 'n' (by decide) (by decide), hword "0x" 'x' (by decide) (by decide),
    hwritten.scan_codes, Bool.false_eq_true, if_false, Option.map_some]

/-- The reading of doubles reads the text of a numeral that was found as that numeral. -/
theorem conversion?_of_scan {codes rest : List Nat} {numeral : Numeral}
    (hscan : scan codes = some (numeral, rest)) :
    Leading.conversion? ((Utf8.encodeAll numeral.codes).map UInt8.toNat) =
      some numeral.convert := by
  have hwritten := isWritten_of_scan hscan
  rw [Utf8.map_toNat_encodeAll fun code hcode ↦ (hwritten.smallLetter_not_mem hcode).1,
    hwritten.conversion?_codes]

/-- The double of a numeral is there when it is in range. -/
theorem IsWritten.double?_text {numeral : Numeral} (hwritten : numeral.IsWritten) :
    Leading.double? numeral.text =
      if numeral.convert.inRange then some numeral.convert.value else none := by
  rw [Leading.double?, hwritten.map_toNat_text, hwritten.conversion?_codes]

end Numeral

end Metrology
