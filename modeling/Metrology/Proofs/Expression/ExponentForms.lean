import Metrology.Proofs.Expression.Adjoining
import Metrology.Proofs.Expression.Meaning
import Metrology.Proofs.Expression.Rewriting
import Metrology.Proofs.Numeric.Nearest

/-!
# The forms of exponents

An exponent is digits with an optional sign, and is written behind a caret or in superscripts
(`WrittenExponent`). Right behind a symbol, and in front of a separator or the end of the text,
either form is read up to its end, or refused there (`WrittenExponent.tokens_codes_append`). A caret
separates, and a superscript ends every lexeme right behind a symbol, so that what stands before an
exponent is read as if the text ended there (`Token.ofText_exponent_eq_ok_iff`). In an expression
the exponent is that of the symbol before it, in either form (`Text.isExpression_between_iff`).
-/

set_option autoImplicit false
set_option relaxedAutoImplicit false

namespace Metrology

/-! ### Texts that end in a symbol -/

/-- The last character of a text is one of symbols. -/
def Text.EndsInSymbol (text : Text) : Prop :=
  ∃ front code, Lexer.isSymbol code = true ∧ code < 0x200000 ∧ text = front ++ Utf8.encode code

namespace Lexer

theorem endsInSymbol_of_decodeAll {text : Text} {codes : List Nat} (hends : text.EndsInSymbol)
    (hdecode : Utf8.decodeAll text = (codes, none)) : EndsInSymbol codes := by
  obtain ⟨front, code, hsymbol, hcode, rfl⟩ := hends
  obtain ⟨lead, rest, hencode, hlead⟩ := Utf8.exists_lead_encode hcode
  have hlast := Utf8.decodeAll_encode_append hcode []
  rw [List.append_nil, Utf8.decodeAll] at hlast
  rw [hencode] at hdecode hlast
  obtain ⟨before, behind, _, hbehind, rfl⟩ := Utf8.exists_decodeAll_of_append hlead hdecode
  rw [hlast, Prod.mk.injEq] at hbehind
  obtain ⟨rfl, _⟩ := hbehind
  exact ⟨before, code, rfl, hsymbol⟩

theorem isSymbol_of_mem_digits {digits : List Nat} (hten : ∀ digit ∈ digits, digit < 10)
    {code : Nat} (hcode : code ∈ digits.map digitCode) : isSymbol code = false := by
  refine isSymbol_of_startsNumber ?_
  rw [startsNumber, Numeral.isDigit_of_mem_map hten hcode]
  rfl

theorem isSymbol_of_mem_mantissa {numeral : Numeral} (hwritten : numeral.IsWritten) {code : Nat}
    (hcode : code ∈ numeral.mantissa.codes) : isSymbol code = false := by
  rw [Mantissa.codes, List.mem_append, List.mem_append] at hcode
  rcases hcode with (hsign | hwhole) | hfraction
  · exact (by decide : ∀ other ∈ [43, 45], isSymbol other = false) code
      (Numeral.mem_of_mem_signCodes hsign)
  · exact isSymbol_of_mem_digits hwritten.whole_lt hwhole
  · cases hdigits : numeral.mantissa.fraction with
    | none =>
      rw [hdigits] at hfraction
      cases hfraction
    | some digits =>
      rw [hdigits] at hfraction
      rcases List.mem_cons.mp hfraction with rfl | hmem
      · rfl
      · exact isSymbol_of_mem_digits (hwritten.fraction_lt _ hdigits) hmem

theorem not_endsInSymbol {codes : List Nat} (hcodes : ∀ code ∈ codes, isSymbol code = false) :
    ¬ EndsInSymbol codes := by
  rintro ⟨front, last, rfl, hlast⟩
  rw [hcodes last (by simp)] at hlast
  cases hlast

/-- A digit or a point stands at the end of a number. -/
theorem not_endsInSymbol_numeral {numeral : Numeral} (hwritten : numeral.IsWritten) :
    ¬ EndsInSymbol numeral.codes := by
  intro hends
  rw [Numeral.codes] at hends
  cases hexponent : numeral.exponent with
  | none =>
    rw [hexponent, Option.map_none, Option.getD_none, List.append_nil] at hends
    exact not_endsInSymbol (fun code ↦ isSymbol_of_mem_mantissa hwritten) hends
  | some part =>
    have hsome : part.digits.map digitCode ≠ [] := by
      simpa using hwritten.exponent_ne_nil _ hexponent
    rw [hexponent, Option.map_some, Option.getD_some, ExponentPart.codes, ← List.cons_append,
      ← List.append_assoc] at hends
    exact not_endsInSymbol (fun code ↦ isSymbol_of_mem_digits (hwritten.exponent_lt _ hexponent))
      (hends.of_append hsome)

/-- A lexeme that takes a character of symbols last is a symbol. -/
theorem kind_of_endsInSymbol {first : Nat} {rest : List Nat} {read : Lexeme}
    (hread : lexeme none first rest = .ok read) (hends : EndsInSymbol read.codes) :
    read.kind = .symbol := by
  have hoperator : ¬ (read.kind = .times ∨ read.kind = .divide ∨ read.kind = .caret) := by
    intro hkind
    obtain ⟨hfirst, hcodes⟩ := operatorKind?_of_lexeme hread hkind
    rw [hcodes] at hends
    refine not_endsInSymbol (fun code hcode ↦ ?_) hends
    rw [List.mem_singleton.mp hcode]
    exact (isOther_of_separates (separates_of_operatorKind? hfirst)).symbol
  rcases lexeme_cases hread with ⟨_, rfl⟩ | ⟨_, rfl⟩ | ⟨_, rfl⟩ | ⟨_, hnumber⟩ |
    ⟨_, hsuperscript⟩ | ⟨_, rfl⟩
  · exact absurd (.inl rfl) hoperator
  · exact absurd (.inr (.inl rfl)) hoperator
  · exact absurd (.inr (.inr rfl)) hoperator
  · obtain ⟨numeral, behind, hscan, _, rfl⟩ := exists_numeral_of_number hnumber
    exact absurd hends (not_endsInSymbol_numeral (Numeral.isWritten_of_scan hscan))
  · have hraised := isRaised_of_superscript hsuperscript
    exact absurd hends
      (not_endsInSymbol fun code hcode ↦ isSymbol_of_isRaised (hraised code hcode))
  · rfl

/-- The last token of what ends in a symbol is that symbol, up to the end. -/
theorem Reads.exists_symbol {position : Nat} {spaced : Bool} {codes : List Nat}
    {tokens : List Token} (hreads : Reads position spaced codes tokens)
    (hends : EndsInSymbol codes) :
    ∃ front symbol final, tokens = front ++ [symbol, final] ∧ symbol.kind = .symbol ∧
      final.position = symbol.stop ∧ final.spaced = false := by
  induction hreads with
  | finish =>
    obtain ⟨front, last, hcodes, _⟩ := hends
    simp at hcodes
  | @blank position first spaced rest _ hblank _ ih =>
    have hrest : rest ≠ [] := by
      rintro rfl
      refine not_endsInSymbol (fun code hcode ↦ ?_) hends
      rw [List.mem_singleton.mp hcode]
      exact (isOther_of_separates (separates_of_isBlank hblank)).symbol
    exact ih (@EndsInSymbol.of_append [first] rest hrest hends)
  | @lexeme position first spaced rest read others hblank hread hrest ih =>
    have hcodes := (lexeme_codes hread).1
    rw [← hcodes] at hends
    by_cases hnil : read.rest = []
    · rw [hnil] at hends hrest
      rw [List.append_nil] at hends
      cases hrest
      exact ⟨[], _, _, rfl, kind_of_endsInSymbol hread hends, rfl, rfl⟩
    · obtain ⟨front, symbol, final, rfl, hsymbol⟩ := ih (hends.of_append hnil)
      exact ⟨_ :: front, symbol, final, rfl, hsymbol⟩

end Lexer

/-! ### Exponents in their forms -/

/-- The forms of exponents: behind a caret, or in superscripts. -/
inductive ExponentForm where
  | caret
  | raised

/-- A written exponent: digits, and a sign that may be missing. -/
structure WrittenExponent where
  sign : Option Sign
  digits : List Nat
  digits_ne_nil : digits ≠ []
  lt_ten : ∀ digit ∈ digits, digit < 10

namespace WrittenExponent

open Lexer

/-- The superscript form of a digit. -/
def superscriptCode (digit : Nat) : Nat :=
  superscriptDigits.getD digit 0

variable (written : WrittenExponent)

/-- The exponent that is written. -/
def value : Int :=
  Sign.apply written.sign (Decimal.value written.digits)

/-- What stands behind a caret. -/
def numeral : Numeral :=
  ⟨⟨written.sign, written.digits, none⟩, none⟩

/-- The code points of an exponent in one of its forms. -/
def codes : ExponentForm → List Nat
  | .caret => 94 :: written.numeral.codes
  | .raised => (written.sign.map superscriptSign).toList ++ written.digits.map superscriptCode

/-- An exponent in one of its forms. -/
def text (form : ExponentForm) : Text :=
  Utf8.encodeAll (written.codes form)

/-- A text with an exponent between two others. -/
def between (form : ExponentForm) (before after : Text) : Text :=
  before ++ (written.text form ++ after)

/-- How an exponent is read at a place: as tokens, or it is refused there. -/
def reading (position : Nat) : ExponentForm → Except Refusal (List Token)
  | .caret =>
    if written.numeral.convert.inRange then
      .ok [⟨.caret, Utf8.encode 94, position, false⟩, ⟨.number written.numeral.convert.value
        (some written.value), written.numeral.text, position + 1, false⟩]
    else .error ⟨.numberOutOfRange written.numeral.text, position + 1⟩
  | .raised =>
    if exponentLimit < written.value.natAbs then .error ⟨.superscriptOutOfRange, position⟩
    else .ok [⟨.superscript written.value, written.text .raised, position, false⟩]

theorem natAbs_value : written.value.natAbs = Decimal.value written.digits := by
  rw [value, Sign.apply]
  split <;> omega

theorem isWritten_numeral : written.numeral.IsWritten where
  whole_lt := written.lt_ten
  fraction_lt := by simp [numeral]
  digits_ne_nil := by simpa [numeral, Mantissa.digits] using written.digits_ne_nil
  exponent_lt := by simp [numeral]
  exponent_ne_nil := by simp [numeral]

theorem integer?_numeral : written.numeral.integer? = some written.value := by
  rw [Numeral.integer?, if_pos ⟨rfl, rfl⟩]
  rfl

/-! ### Superscripts -/

theorem superscriptCode_spec {digit : Nat} (hdigit : digit < 10) :
    superscriptValue? (superscriptCode digit) = some digit ∧
      isSuperscriptDigit (superscriptCode digit) = true ∧
      superscriptCode digit ≠ superscriptSign .plus ∧
      superscriptCode digit ≠ superscriptSign .minus :=
  (by decide : ∀ other < 10, superscriptValue? (superscriptCode other) = some other ∧
    isSuperscriptDigit (superscriptCode other) = true ∧
    superscriptCode other ≠ superscriptSign .plus ∧
    superscriptCode other ≠ superscriptSign .minus) digit hdigit

theorem isSuperscriptDigit_of_mem {code : Nat}
    (hcode : code ∈ written.digits.map superscriptCode) : isSuperscriptDigit code = true := by
  obtain ⟨digit, hdigit, rfl⟩ := List.mem_map.mp hcode
  exact (superscriptCode_spec (written.lt_ten digit hdigit)).2.1

theorem filterMap_superscriptValue? {digits : List Nat} (hten : ∀ digit ∈ digits, digit < 10) :
    (digits.map superscriptCode).filterMap superscriptValue? = digits := by
  induction digits with
  | nil => rfl
  | cons digit others ih =>
    rw [List.map_cons, List.filterMap_cons_some (superscriptCode_spec (hten digit (by simp))).1,
      ih fun other hother ↦ hten other (List.mem_cons_of_mem digit hother)]

theorem scanSuperscriptSign_codes (rest : List Nat) :
    scanSuperscriptSign (written.codes .raised ++ rest) =
      (written.sign, written.digits.map superscriptCode ++ rest) := by
  obtain ⟨digit, others, hdigits⟩ := List.exists_cons_of_ne_nil written.digits_ne_nil
  rw [codes, hdigits]
  rcases written.sign with _ | _ | _
  · obtain ⟨_, _, hplus, hminus⟩ :=
      superscriptCode_spec (written.lt_ten digit (hdigits ▸ List.mem_cons_self))
    show (if superscriptCode digit = _ then _ else if superscriptCode digit = _ then _ else _) = _
    rw [if_neg hplus, if_neg hminus]
    rfl
  · rfl
  · rfl

/-- An exponent in superscripts is read up to anything that does not go on with it. -/
theorem superscript_codes_append {rest : List Nat}
    (hrest : ∀ code ∈ rest.head?, separates code = true) :
    superscript none (written.codes .raised ++ rest) =
      if exponentLimit < written.value.natAbs then .error ⟨.superscriptOutOfRange, 0⟩
      else .ok ⟨.superscript written.value, written.codes .raised, rest⟩ := by
  have htaken : rest.takeWhile isSuperscriptDigit = [] ∧
      rest.dropWhile isSuperscriptDigit = rest := by
    cases rest with
    | nil => exact ⟨rfl, rfl⟩
    | cons code rest => simp [(isOther_of_separates (hrest code rfl)).superscriptDigit]
  have hdigits := fun code ↦ @isSuperscriptDigit_of_mem written code
  have hsome : written.digits.map superscriptCode ≠ [] := by simpa using written.digits_ne_nil
  rw [natAbs_value]
  simp only [superscript, scanSuperscriptSign_codes, List.takeWhile_append_of_pos hdigits,
    List.dropWhile_append_of_pos hdigits, htaken, List.append_nil,
    filterMap_superscriptValue? written.lt_ten, if_neg hsome]
  rfl

/-! ### Exponents in a text -/

theorem lexeme_of_isRaised {ending : Option Utf8.Fault} {first : Nat} {rest : List Nat}
    (hfirst : isRaised first = true) :
    isBlank first = false ∧ lexeme ending first rest = superscript ending (first :: rest) := by
  have hother : isBlank first = false ∧ isTimes first = false ∧ first ≠ 47 ∧ first ≠ 94 ∧
      startsNumber first = false :=
    (by decide : ∀ other ∈ raisedCodes, isBlank other = false ∧ isTimes other = false ∧
      other ≠ 47 ∧ other ≠ 94 ∧ startsNumber other = false) first (mem_raisedCodes hfirst)
  obtain ⟨hblank, htimes, hdivide, hcaret, hnumber⟩ := hother
  have hraised : (isSuperscriptDigit first || isSuperscriptSign first) = true := hfirst
  exact ⟨hblank, by simp [lexeme, htimes, hdivide, hcaret, hnumber, hraised]⟩

theorem exists_codes_raised :
    ∃ first behind, written.codes .raised = first :: behind ∧ isRaised first = true := by
  obtain ⟨digit, others, hdigits⟩ := List.exists_cons_of_ne_nil written.digits_ne_nil
  have hdigit := superscriptCode_spec (written.lt_ten digit (hdigits ▸ List.mem_cons_self))
  rw [codes, hdigits]
  rcases written.sign with _ | _ | _
  · exact ⟨_, _, rfl, by rw [isRaised, hdigit.2.1, Bool.true_or]⟩
  · exact ⟨_, _, rfl, rfl⟩
  · exact ⟨_, _, rfl, rfl⟩

/-- Either form starts with a character that ends every lexeme right behind a symbol. -/
theorem exists_codes (form : ExponentForm) :
    ∃ first behind, written.codes form = first :: behind ∧ first < 0x200000 ∧
      ∀ {front}, EndsInSymbol front → EndsLexemes front first := by
  cases form with
  | caret => exact ⟨94, _, rfl, by decide, fun _ ↦ endsLexemes_of_separates (by decide) _⟩
  | raised =>
    obtain ⟨first, behind, hcodes, hfirst⟩ := written.exists_codes_raised
    exact ⟨first, behind, hcodes, (by decide : ∀ other ∈ raisedCodes, other < 0x200000) first
      (mem_raisedCodes hfirst), fun hends ↦ endsLexemes_of_isRaised hfirst hends⟩

theorem codes_lt (form : ExponentForm) : ∀ code ∈ written.codes form, code < 0x200000 := by
  intro code hcode
  cases form with
  | caret =>
    rcases List.mem_cons.mp hcode with rfl | hmem
    · decide
    · rcases written.isWritten_numeral.isDigit_or_mem hmem with hdigit | hother
      · simp only [isDigit, Bool.and_eq_true, decide_eq_true_eq] at hdigit
        omega
      · exact (by decide : ∀ other ∈ [43, 45, 46, 69, 101], other < 0x200000) code hother
  | raised =>
    have hraised : isRaised code = true := by
      rcases List.mem_append.mp hcode with hsign | hdigit
      · exact isRaised_of_mem_sign hsign
      · rw [isRaised, written.isSuperscriptDigit_of_mem hdigit, Bool.true_or]
    exact (by decide : ∀ other ∈ raisedCodes, other < 0x200000) code (mem_raisedCodes hraised)

/-- A caret is one token, and the exponent behind it is a number. -/
theorem tokens_caret_append (position : Nat) {rest : List Nat}
    (hrest : ∀ code ∈ rest.head?, separates code = true) :
    tokens none position false (written.codes .caret ++ rest) =
      (written.reading position .caret).bind fun power ↦
        (tokens none (position + Utf8.sizeAll (written.codes .caret)) false rest).map
          (power ++ ·) := by
  have hends : Numeral.EndsInteger rest := by
    intro code hcode
    have hother := isOther_of_separates (hrest code hcode)
    obtain ⟨hcapital, hsmall⟩ := not_or.mp hother.letter
    exact ⟨hother.digit, hother.point, hcapital, hsmall⟩
  obtain ⟨first, behind, hcodes, hblank, hlexeme⟩ :=
    lexeme_of_isWritten written.isWritten_numeral hends.endsNumeral none
  have hcaret : operatorKind? 94 = some .caret := by decide
  have htext : Utf8.encodeAll written.numeral.codes = written.numeral.text :=
    Utf8.encodeAll_of_decodeAll written.isWritten_numeral.decodeAll_text
  have hsize : position + Utf8.sizeAll (94 :: written.numeral.codes) =
      position + Utf8.sizeAll [94] + Utf8.sizeAll written.numeral.codes := by
    rw [Utf8.sizeAll_cons, Nat.add_assoc]
    rfl
  rw [codes, List.cons_append, tokens_cons_of_lexeme (isBlank_of_operatorKind? hcaret)
    (lexeme_of_operatorKind? hcaret), hcodes, reading]
  by_cases hrange : written.numeral.convert.inRange = true
  · rw [if_pos hrange, integer?_numeral] at hlexeme
    rw [if_pos hrange, tokens_cons_of_lexeme hblank hlexeme, Fallible.map_map, htext, hsize]
    rfl
  · rw [if_neg hrange] at hlexeme
    rw [if_neg hrange, tokens_cons_of_failure (by simp [hblank]) hlexeme]
    rfl

/-- An exponent in superscripts is one token. -/
theorem tokens_raised_append (position : Nat) {rest : List Nat}
    (hrest : ∀ code ∈ rest.head?, separates code = true) :
    tokens none position false (written.codes .raised ++ rest) =
      (written.reading position .raised).bind fun power ↦
        (tokens none (position + Utf8.sizeAll (written.codes .raised)) false rest).map
          (power ++ ·) := by
  obtain ⟨first, behind, hcodes, hfirst⟩ := written.exists_codes_raised
  obtain ⟨hblank, hlexeme⟩ := @lexeme_of_isRaised none first (behind ++ rest) hfirst
  rw [← List.cons_append, ← hcodes, written.superscript_codes_append hrest] at hlexeme
  rw [reading]
  by_cases hlimit : exponentLimit < written.value.natAbs
  · rw [if_pos hlimit] at hlexeme
    rw [hcodes, List.cons_append, tokens_cons_of_failure (by simp [hblank]) hlexeme, if_pos hlimit]
    rfl
  · rw [if_neg hlimit] at hlexeme
    rw [if_neg hlimit, hcodes, List.cons_append, tokens_cons_of_lexeme hblank hlexeme, ← hcodes]
    rfl

/-- An exponent in front of a separator or the end is read up to its end, or refused. -/
theorem tokens_codes_append (form : ExponentForm) (position : Nat) {rest : List Nat}
    (hrest : ∀ code ∈ rest.head?, separates code = true) :
    tokens none position false (written.codes form ++ rest) =
      (written.reading position form).bind fun power ↦
        (tokens none (position + Utf8.sizeAll (written.codes form)) false rest).map
          (power ++ ·) := by
  cases form with
  | caret => exact written.tokens_caret_append position hrest
  | raised => exact written.tokens_raised_append position hrest

/-- An exponent that is not too large is read. -/
theorem exists_reading (form : ExponentForm) (position : Nat)
    (hlimit : written.value.natAbs ≤ exponentLimit) :
    ∃ power, written.reading position form = .ok power ∧ Grammar.Power power written.value := by
  cases form with
  | caret =>
    have hrange := written.isWritten_numeral.inRange_convert_of_lt written.integer?_numeral
      (hlimit.trans_lt (by decide))
    exact ⟨_, if_pos hrange, .caret rfl rfl hlimit⟩
  | raised => exact ⟨_, if_neg (Nat.not_lt.mpr hlimit), .superscript rfl rfl⟩

/-- An exponent that is read is taken behind a symbol, unless it is too large. -/
theorem exponent_append {form : ExponentForm} {position : Nat} {power : List Token}
    (hreading : written.reading position form = .ok power) (rest : List Token) :
    Outline.exponent (power ++ rest) =
      if exponentLimit < written.value.natAbs then .error ⟨.exponentOutOfRange, position + 1⟩
      else .ok (written.value, rest) := by
  cases form with
  | caret =>
    rw [reading] at hreading
    split at hreading
    · cases hreading
      rfl
    · cases hreading
  | raised =>
    rw [reading] at hreading
    split at hreading
    · cases hreading
    · next hlimit =>
      cases hreading
      rw [if_neg hlimit]
      rfl

/-- How an exponent that is too large is refused in a text. -/
def refusal (input : Text) (position : Nat) : ExponentForm → ExpressionError
  | .caret =>
    ⟨if written.numeral.convert.inRange then .grammar .exponentOutOfRange
      else .lexical (.numberOutOfRange written.numeral.text), input, position + 1⟩
  | .raised => ⟨.lexical .superscriptOutOfRange, input, position⟩

variable {written} {form : ExponentForm} {position : Nat}

theorem refusal_of_reading_eq_error {refused : Refusal}
    (hreading : written.reading position form = .error refused) (input : Text) :
    written.refusal input position form =
      ⟨.lexical refused.fault, input, refused.position⟩ := by
  cases form <;> rw [reading] at hreading <;> split at hreading
  case caret.isTrue => cases hreading
  case caret.isFalse hrange =>
    cases hreading
    rw [refusal, if_neg hrange]
  case raised.isTrue =>
    cases hreading
    rfl
  case raised.isFalse => cases hreading

theorem refusal_of_reading_eq_ok {power : List Token}
    (hreading : written.reading position form = .ok power)
    (hlarge : exponentLimit < written.value.natAbs) (input : Text) :
    written.refusal input position form =
      ⟨.grammar .exponentOutOfRange, input, position + 1⟩ := by
  cases form with
  | caret =>
    rw [reading] at hreading
    split at hreading
    · next hrange => rw [refusal, if_pos hrange]
    · cases hreading
  | raised =>
    rw [reading, if_pos hlarge] at hreading
    cases hreading

end WrittenExponent

namespace Lexer

theorem separates_head {after : Text} {codes : List Nat}
    (hafter : after = [] ∨ StartsSeparated after)
    (hdecode : Utf8.decodeAll after = (codes, none)) :
    ∀ code ∈ codes.head?, separates code = true := by
  rcases hafter with rfl | ⟨first, rest, hfirst, rfl⟩
  · rw [Utf8.decodeAll] at hdecode
    cases hdecode
    simp
  · rw [Utf8.decodeAll_encode_append (lt_of_separates hfirst), Prod.mk.injEq] at hdecode
    obtain ⟨rfl, _⟩ := hdecode
    intro code hcode
    cases hcode
    exact hfirst

end Lexer

namespace Token

open Lexer

variable {written : WrittenExponent} {form : ExponentForm} {before after : Text}
  (hbefore : before.EndsInSymbol) (hafter : after = [] ∨ StartsSeparated after)

include hbefore

/-- The last token before an exponent is the symbol that it belongs to. -/
theorem exists_symbol_of_ofText {tokens : List Token} (hread : ofText before = .ok tokens) :
    ∃ front symbol final, tokens = front ++ [symbol, final] ∧ symbol.kind = .symbol ∧
      symbol.stop = before.length ∧ final.position = before.length ∧ final.spaced = false := by
  obtain ⟨codes, hdecode, hreads⟩ := ofText_eq_ok_iff.mp hread
  obtain ⟨front, symbol, final, rfl, hsymbol, hposition, hspaced⟩ :=
    hreads.exists_symbol (endsInSymbol_of_decodeAll hbefore hdecode)
  have hlast : ofText before = .ok ((front ++ [symbol]) ++ [final]) := by rwa [List.append_assoc]
  have hstop := position_final hlast
  exact ⟨front, symbol, final, rfl, hsymbol, hposition.symm.trans hstop, hstop, hspaced⟩

theorem symbol_of_ofText {front : List Token} {symbol final : Token}
    (hread : ofText before = .ok (front ++ [symbol, final])) :
    symbol.kind = .symbol ∧ symbol.stop = before.length ∧ final.position = before.length ∧
      final.spaced = false := by
  obtain ⟨_, _, _, htokens, hlast⟩ := exists_symbol_of_ofText hbefore hread
  obtain ⟨_, hsame⟩ := List.append_inj' htokens rfl
  obtain ⟨rfl, hfinal⟩ := List.cons.inj hsame
  obtain ⟨rfl, _⟩ := List.cons.inj hfinal
  exact hlast

include hafter

/-- Between texts that can be read, an exponent is read or refused at its place. -/
theorem ofText_exponent {front : List Token} {symbol final : Token} {codes : List Nat}
    (hread : ofText before = .ok (front ++ [symbol, final]))
    (hcodes : Utf8.decodeAll after = (codes, none)) :
    ofText (written.between form before after) =
      ((written.reading before.length form).bind fun power ↦
        (tokens none (before.length + (written.text form).length) false codes).map fun others ↦
          front ++ symbol :: (power ++ others)).mapError fun refusal ↦
            ⟨.lexical refusal.fault, written.between form before after, refusal.position⟩ := by
  obtain ⟨_, _, hposition, hspaced⟩ := symbol_of_ofText hbefore hread
  obtain ⟨left, hdecode, hreads⟩ := ofText_eq_ok_iff.mp hread
  obtain ⟨first, behind, hfirst, _, hends⟩ := written.exists_codes form
  have hwhole : Utf8.decodeAll (written.between form before after) =
      (left ++ (written.codes form ++ codes), none) := by
    rw [WrittenExponent.between, Utf8.decodeAll_append _ hdecode, WrittenExponent.text,
      Utf8.decodeAll_append _ (Utf8.decodeAll_encodeAll (written.codes_lt form)), hcodes]
  rw [← List.singleton_append, ← List.append_assoc] at hreads
  have hjoined : tokens none 0 false (left ++ first :: (behind ++ codes)) =
      (tokens none final.position final.spaced (first :: (behind ++ codes))).map
        ((front ++ [symbol]) ++ ·) :=
    hreads.tokens_append (hends (endsInSymbol_of_decodeAll hbefore hdecode))
  rw [hposition, hspaced, ← List.cons_append, ← hfirst,
    written.tokens_codes_append form _ (separates_head hafter hcodes)] at hjoined
  rw [ofText, hwhole]
  dsimp only
  rw [hjoined]
  refine congrArg (Except.mapError _) ?_
  cases written.reading before.length form with
  | error refusal => rfl
  | ok power =>
    refine (Fallible.map_map _ _ _).trans ?_
    simp only [List.append_assoc, List.singleton_append]
    rfl

theorem ofText_exponent_eq_ok_iff {tokens : List Token} :
    ofText (written.between form before after) = .ok tokens ↔
      ∃ front symbol final power others, ofText before = .ok (front ++ [symbol, final]) ∧
        written.reading before.length form = .ok power ∧
        ReadsText (before.length + (written.text form).length) false after others ∧
        tokens = front ++ symbol :: (power ++ others) := by
  obtain ⟨first, behind, hfirst, hlt, hends⟩ := written.exists_codes form
  constructor
  · intro hread
    have htext : written.text form ++ after =
        Utf8.encode first ++ (Utf8.encodeAll behind ++ after) := by
      rw [WrittenExponent.text, hfirst, Utf8.encodeAll_cons, List.append_assoc]
    have hreads := ofText_eq_ok_iff_readsText.mp hread
    rw [WrittenExponent.between, htext, ReadsText.append_iff_of_endsLexemes hlt
      fun codes hcodes ↦ hends (endsInSymbol_of_decodeAll hbefore hcodes)] at hreads
    obtain ⟨body, final, _, hbody, ⟨codes, hdecode, _⟩, _⟩ := hreads
    have hbody := ofText_eq_ok_iff_readsText.mpr hbody
    obtain ⟨front, symbol, final, htokens, _⟩ := exists_symbol_of_ofText hbefore hbody
    rw [htokens] at hbody
    -- the text behind the exponent can be read by itself
    rw [← htext, WrittenExponent.text] at hdecode
    cases hafterCodes : Utf8.decodeAll after with
    | mk behindCodes ending =>
      rw [Utf8.decodeAll_append _ (Utf8.decodeAll_encodeAll (written.codes_lt form)), hafterCodes,
        Prod.mk.injEq] at hdecode
      obtain ⟨_, rfl⟩ := hdecode
      rw [ofText_exponent hbefore hafter hbody hafterCodes, Fallible.mapError_eq_ok_iff,
        Fallible.bind_eq_ok_iff] at hread
      obtain ⟨power, hpower, hrest⟩ := hread
      obtain ⟨others, hothers, rfl⟩ := Fallible.map_eq_ok_iff.mp hrest
      exact ⟨front, symbol, final, power, others, hbody, hpower,
        ⟨behindCodes, hafterCodes, reads_of_tokens hothers⟩, rfl⟩
  · rintro ⟨front, symbol, final, power, others, hbody, hpower, ⟨codes, hcodes, hothers⟩, rfl⟩
    rw [ofText_exponent hbefore hafter hbody hcodes, hpower]
    refine Fallible.mapError_eq_ok_iff.mpr (Fallible.map_eq_ok_iff.mpr ⟨others, ?_, rfl⟩)
    exact hothers.tokens_eq_ok

end Token

/-! ### The doubles of exponents -/

/-- A number among tokens is a numeral in the range of doubles. -/
theorem Lexer.Reads.exists_numeral {position : Nat} {spaced : Bool} {codes : List Nat}
    {tokens : List Token} (hreads : Reads position spaced codes tokens) {token : Token}
    (htoken : token ∈ tokens) {value : Float} {integer : Option Int}
    (hnumber : token.kind = .number value integer) :
    ∃ numeral : Numeral, numeral.convert.inRange = true ∧ numeral.convert.value = value ∧
      numeral.integer? = integer := by
  induction hreads with
  | finish =>
    rw [List.mem_singleton.mp htoken] at hnumber
    cases hnumber
  | blank _ _ ih => exact ih htoken
  | lexeme _ hlexeme _ ih =>
    rcases List.mem_cons.mp htoken with rfl | hmem
    · obtain ⟨numeral, _, _, hrange, rfl⟩ :=
        exists_numeral_of_number (number_of_lexeme hlexeme hnumber).2
      cases hnumber
      exact ⟨numeral, hrange, rfl, rfl⟩
    · exact ih hmem

/-- Whether an integer in a text is too large for an exponent, and which one it is, may be read off
its double. -/
theorem Token.exponent?_of_ofText {text : Text} {tokens : List Token}
    (hread : ofText text = .ok tokens) {token : Token} (htoken : token ∈ tokens) {value : Float}
    {integer : Int} (hnumber : token.kind = .number value (some integer)) :
    Real64.exponent? value =
      if Lexer.exponentLimit < integer.natAbs then none else some integer := by
  obtain ⟨codes, _, hreads⟩ := ofText_eq_ok_iff.mp hread
  obtain ⟨numeral, hrange, rfl, hinteger⟩ := hreads.exists_numeral htoken hnumber
  exact Numeral.exponent?_convert hinteger hrange

/-! ### Exponents in an expression -/

open Lexer Grammar

/-- Texts that an exponent may stand between: the first ends with a symbol that stands for a factor,
and the second has further terms, which start at a byte offset. -/
structure Text.Surrounds (before after : Text) (start : Nat) (number : Option Float)
    (earlier : List Factor) (inverted : Bool) (occurrence : Occurrence) (later : List Factor) :
    Prop where
  before : ∃ front symbol final, Token.ofText before = .ok (front ++ [symbol, final]) ∧
    occurrence = ⟨symbol.text, symbol.position⟩ ∧
    Place (Expression · number) (ReadsExpression number) front symbol earlier inverted
  after : ∃ rest last, ReadsText start false after (rest ++ [last]) ∧ last.kind = .finish ∧
    Tail rest later

section

variable {written : WrittenExponent} {form : ExponentForm} {before after : Text}
  {number : Option Float} {earlier later factors : List Factor} {inverted : Bool}
  {occurrence : Occurrence}

/-- The further terms may start anywhere. -/
theorem Text.Surrounds.exists_moved {start : Nat}
    (hsurrounds : before.Surrounds after start number earlier inverted occurrence later)
    (place : Nat) :
    ∃ others, before.Surrounds after place number earlier inverted occurrence others ∧
      others.map Factor.unplaced = later.map Factor.unplaced := by
  obtain ⟨hbefore, rest, last, hread, hlast, htail⟩ := hsurrounds
  obtain ⟨tokens, htokens, hrespelled⟩ := hread.exists_moved place
  obtain ⟨body, final, others, rfl, hfinal, hothers, hsame⟩ :=
    htail.exists_of_respelled hlast (hrespelled True)
  exact ⟨others, ⟨hbefore, body, final, htokens, hfinal, hothers⟩, hsame⟩

variable (hbefore : before.EndsInSymbol) (hafter : after = [] ∨ StartsSeparated after)

include hbefore hafter

/-- A text with an exponent in it is an expression when the exponent is not too large and stands
between texts that it may stand between. It then is the exponent of the symbol before it. -/
theorem Text.isExpression_between_iff :
    (written.between form before after).IsExpression number factors ↔
      written.value.natAbs ≤ exponentLimit ∧ ∃ earlier inverted occurrence later,
        before.Surrounds after (before.length + (written.text form).length) number earlier inverted
          occurrence later ∧
        factors = earlier ++ ⟨inverted, occurrence, written.value⟩ :: later := by
  constructor
  · rintro ⟨body, last, hread, hlast, hexpression⟩
    obtain ⟨front, symbol, final, power, others, hbeforeRead, hreading, hothers, htokens⟩ :=
      (Token.ofText_exponent_eq_ok_iff hbefore hafter).mp hread
    obtain ⟨rest, other, rfl, _⟩ := hothers.eq_append_finish
    obtain ⟨hsymbol, _⟩ := Token.symbol_of_ofText hbefore hbeforeRead
    rw [← List.append_assoc, ← List.cons_append, ← List.append_assoc] at htokens
    obtain ⟨rfl, hfinal⟩ := List.append_inj' htokens rfl
    obtain ⟨rfl, _⟩ := List.cons.inj hfinal
    have hplace := hexpression.hasPlace hsymbol rfl
    generalize hbehind : power ++ rest = behind at hplace
    cases hplace with
    | @mk earlier later inverted taken left exponent hplace hpower htail =>
      -- the exponent that the expression has is the one that is written
      have hexponent := hpower.exponent_append (htail.endsTerm hlast)
      rw [← List.append_assoc, ← hbehind, List.append_assoc,
        written.exponent_append hreading] at hexponent
      split at hexponent
      · cases hexponent
      · next hlimit =>
        rw [Except.ok.injEq, Prod.mk.injEq] at hexponent
        obtain ⟨rfl, hrest⟩ := hexponent
        obtain rfl := List.append_cancel_right hrest
        exact ⟨Nat.not_lt.mp hlimit, earlier, inverted, _, later, ⟨⟨front, symbol, final,
          hbeforeRead, rfl, hplace⟩, rest, last, hothers, hlast, htail⟩, rfl⟩
  · rintro ⟨hlimit, earlier, inverted, _, later, ⟨⟨front, symbol, final, hbeforeRead, rfl, hplace⟩,
      rest, last, hothers, hlast, htail⟩, rfl⟩
    obtain ⟨power, hreading, hpower⟩ := written.exists_reading form before.length hlimit
    refine ⟨front ++ symbol :: (power ++ rest), last, ?_, hlast, hplace.fill hpower htail⟩
    refine (Token.ofText_exponent_eq_ok_iff hbefore hafter).mpr
      ⟨front, symbol, final, power, rest ++ [last], hbeforeRead, hreading, hothers, by simp⟩

end

end Metrology
