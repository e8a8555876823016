import Metrology.Proofs.Expression.Lexing
import Metrology.Proofs.Numeric.Numerals

/-!
# Numbers in front of others

The text of a numeral in front of a blank or the end of a text is read as one number, when it is in
the range of doubles (`Lexer.ReadsAs.numeral_append`). A text that starts with a numeral out of
range is refused there (`Token.ofText_eq_error_of_numeral`).
-/

set_option autoImplicit false
set_option relaxedAutoImplicit false

namespace Metrology

namespace Lexer

variable {numeral : Numeral} {rest : List Nat}

/-- A number is a numeral in the range of doubles. -/
theorem exists_numeral_of_number {codes : List Nat} {read : Lexeme}
    (hread : number codes = .ok read) :
    ∃ numeral behind, Numeral.scan codes = some (numeral, behind) ∧
      numeral.convert.inRange = true ∧
      read = ⟨.number numeral.convert.value numeral.integer?, numeral.codes, behind⟩ := by
  unfold number at hread
  split at hread
  · cases hread
  · next numeral behind hscan =>
    split at hread
    · cases hread
    · split at hread
      · next hrange =>
        cases hread
        exact ⟨numeral, behind, hscan, hrange, rfl⟩
      · cases hread

/-- A numeral starts as numbers do. -/
theorem exists_codes_of_isWritten (hwritten : numeral.IsWritten) :
    ∃ first behind, numeral.codes = first :: behind ∧ startsNumber first = true := by
  obtain ⟨first, others, hunsigned, hfirst⟩ := hwritten.exists_head_unsigned
  have hstarts : startsNumber first = true := by
    rcases hfirst with hdigit | rfl
    · rw [startsNumber, hdigit]
      rfl
    · rfl
  rw [Numeral.codes, Mantissa.codes, List.append_assoc (Sign.codes _), hunsigned]
  rcases numeral.mantissa.sign with _ | _ | _
  · exact ⟨first, _, rfl, hstarts⟩
  · exact ⟨43, _, rfl, rfl⟩
  · exact ⟨45, _, rfl, rfl⟩

/-- A numeral in front of anything that cannot go on with it is a number, or out of range. -/
theorem lexeme_of_isWritten (hwritten : numeral.IsWritten) (hrest : Numeral.EndsNumeral rest)
    (ending : Option Utf8.Fault) :
    ∃ first behind, numeral.codes ++ rest = first :: behind ∧ isBlank first = false ∧
      lexeme ending first behind =
        if numeral.convert.inRange then
          .ok ⟨.number numeral.convert.value numeral.integer?, numeral.codes, rest⟩
        else .error ⟨.numberOutOfRange numeral.text, 0⟩ := by
  obtain ⟨first, behind, hcodes, hstarts⟩ := exists_codes_of_isWritten hwritten
  have hpoint : rest.head? ≠ some 46 := fun hhead ↦ (hrest.mantissa 46 hhead).2 rfl
  refine ⟨first, behind ++ rest, by rw [hcodes, List.cons_append],
    isBlank_of_startsNumber hstarts, ?_⟩
  rw [lexeme_of_startsNumber hstarts, ← List.cons_append, ← hcodes, number,
    hwritten.scan_append hrest, ← Utf8.encodeAll_of_decodeAll hwritten.decodeAll_text]
  exact if_neg hpoint

theorem endsNumeral_of_blank {text : Text} {codes : List Nat}
    (htext : Utf8.decodeAll text = (codes, none)) (hend : ∀ byte ∈ text.head?, byte = 32) :
    Numeral.EndsNumeral codes := by
  refine Numeral.EndsInteger.endsNumeral (Utf8.head_decodeAll htext fun byte hbyte ↦ ?_)
  rw [hend byte hbyte]
  decide

/-- A numeral in range is read as a number, in front of the end of a text or a blank. -/
theorem ReadsAs.numeral_append {text : Text} {spaced : Bool} {property : List Token → Prop}
    (hwritten : numeral.IsWritten) (hrange : numeral.convert.inRange = true)
    (hend : ∀ byte ∈ text.head?, byte = 32) (hreads : ReadsAs text false property) :
    ReadsAs (numeral.text ++ text) spaced fun tokens ↦
      ∃ number others, tokens = number :: others ∧
        number.kind = .number numeral.convert.value numeral.integer? ∧ property others := by
  obtain ⟨codes, hcodes, hall⟩ := hreads
  obtain ⟨first, behind, happend, hblank, hlexeme⟩ :=
    lexeme_of_isWritten hwritten (endsNumeral_of_blank hcodes hend) none
  rw [if_pos hrange] at hlexeme
  refine ⟨numeral.codes ++ codes, ?_, fun position ↦ ?_⟩
  · rw [Utf8.decodeAll_append text hwritten.decodeAll_text, hcodes]
  · obtain ⟨others, hothers, hproperty⟩ := hall (position + Utf8.sizeAll numeral.codes)
    rw [happend]
    exact ⟨_, .lexeme hblank hlexeme hothers, _, others, rfl, rfl, hproperty⟩

end Lexer

/-- A text that starts with a numeral out of range is refused there. -/
theorem Token.ofText_eq_error_of_numeral {numeral : Numeral} {text : Text} {codes : List Nat}
    (hwritten : numeral.IsWritten) (hrange : ¬ numeral.convert.inRange = true)
    (hcodes : Utf8.decodeAll text = (codes, none)) (hend : ∀ byte ∈ text.head?, byte = 32) :
    ofText (numeral.text ++ text) =
      .error ⟨.lexical (.numberOutOfRange numeral.text), numeral.text ++ text, 0⟩ := by
  obtain ⟨first, behind, happend, hblank, hlexeme⟩ :=
    Lexer.lexeme_of_isWritten hwritten (Lexer.endsNumeral_of_blank hcodes hend) none
  rw [if_neg hrange] at hlexeme
  rw [ofText, Utf8.decodeAll_append text hwritten.decodeAll_text, hcodes]
  dsimp only
  rw [happend, Lexer.tokens_cons_of_failure (by simp [hblank]) hlexeme]
  rfl

end Metrology
