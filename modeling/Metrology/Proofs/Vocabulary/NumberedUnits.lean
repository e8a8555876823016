import Metrology.Proofs.Expression.Adjoining
import Metrology.Proofs.Vocabulary.QuantityTexts
import Metrology.Proofs.Vocabulary.Spellings

/-!
# Quantities written as a number and a unit

A number in front of an expression without number multiplies what the expression stands for: the
terms are applied to the number one after another, and the exponents stay as they are
(`Meaning.product_number`). The number and the unit may be written without anything between them
(`Vocabulary.parse_numbered`).
-/

set_option autoImplicit false
set_option relaxedAutoImplicit false

namespace Metrology

open Lexer

/-- A number in front of terms adds no exponents. -/
theorem Meaning.product_number {body : List Token} {meanings : List Meaning}
    (hexpression : Grammar.Expression body none (meanings.map Meaning.factor))
    (hrange : WithinRange none meanings) {unit : ExactQuantity}
    (hproduct : product none meanings = some unit) (number : Float) :
    WithinRange (some (.number number)) meanings ∧
      ∃ result, product (some (.number number)) meanings = some result ∧
        result.exponent = unit.exponent := by
  cases meanings with
  | nil => cases hexpression
  | cons meaning rest =>
    obtain ⟨_, hterm, hrest⟩ := withinRange_cons_iff.mp hrange
    have hsame : (meaning.apply none).exponent =
        (meaning.apply (some (.number number))).exponent := by
      rw [apply, apply, if_neg (by simp [hexpression.inverted_head])]
      funext identifier
      exact (Int.zero_add _).symm
    obtain ⟨hwithin, hresult⟩ := product_congr hsame hrest hproduct
    refine ⟨withinRange_cons_iff.mpr ⟨fun value hvalue ↦ ?_, hterm, hwithin⟩, hresult⟩
    cases hvalue
    exact (Quantity.number number).inRange_exact

namespace Vocabulary

/-- Behind a number an expression without number is one at its new place, with the same terms. -/
theorem parse_of_numbered {vocabulary : Vocabulary} {text : Text} {number last : Token}
    {body : List Token} {place : Nat} {value : Float} {integer : Option Int}
    {meanings : List Meaning} {result : Quantity}
    (htext : Token.ofText text = .ok (number :: (body ++ [last]).map (Token.shift place)))
    (hnumber : number.kind = .number value integer) (hlast : last.kind = .finish)
    (hexpression : Grammar.Expression body none (meanings.map Meaning.factor))
    (hreadings : Meaning.Interprets vocabulary meanings)
    (hwithin : Meaning.WithinRange (some (.number value)) meanings)
    (hproduct : Meaning.product (some (.number value)) meanings = some result.exact) :
    vocabulary.parse text = .ok result := by
  have hmoved := Grammar.Respelled.shift (body ++ [last]) 0 place False
  have hzero : (body ++ [last]).map (Token.shift 0) = body ++ [last] := by
    refine List.map_id'' (fun token ↦ ?_) _
    rw [Token.shift, Nat.zero_add]
  rw [hzero] at hmoved
  obtain ⟨others, final, factors, hothers, hfinal, hunits, hfactors⟩ :=
    hexpression.exists_of_respelled hlast hmoved
  rw [hothers, ← List.cons_append] at htext
  refine parse_eq_ok_iff_evaluateFactors.mpr ⟨number :: others, final, some value, factors, htext,
    hfinal, hunits.number_cons hnumber, some result, ?_, rfl⟩
  show evaluateFactors vocabulary text (some (.number value)) factors = _
  rw [← @evaluateFactors_unplaced vocabulary text text, hfactors,
    @evaluateFactors_unplaced vocabulary text text]
  exact (evaluateFactors_eq_ok_iff hreadings).mpr ⟨hwithin, hproduct.symm⟩

/-- A blank may be put behind a number. -/
theorem parse_of_blank {vocabulary : Vocabulary} {numeral unit : Text} {number final : Token}
    {others : List Token} {value : Float} {integer : Option Int} {result : Quantity}
    (hnumeral : Token.ofText numeral = .ok [number, final])
    (hnumber : number.kind = .number value integer) (hspaced : final.spaced = false)
    (hjoined : Token.ofText (numeral ++ unit) = .ok (number :: others))
    (hparse : vocabulary.parse (numeral ++ unit) = .ok result) :
    vocabulary.parse (numeral ++ 32 :: unit) = .ok result := by
  obtain ⟨gap, hgap, hposition⟩ := Token.exists_eq_append_text hnumeral hspaced
  have hbetween : number.IsBetween gap unit (numeral ++ unit) :=
    ⟨⟨_, hjoined, List.mem_cons_self⟩, by rw [hgap, List.append_assoc], hposition⟩
  have hspace : Text.IsBlanks [32] := ⟨⟨[[32]], by decide, rfl⟩, by decide⟩
  have hstep := Rewriting.afterNumber hjoined hnumber hbetween hspace
  rw [← List.append_assoc, ← hgap] at hstep
  exact parse_of_step hstep hparse

/-- For every vocabulary. A text that is read as one number, up to its end, may stand right before a
text that starts with a symbol and stands for a quantity. The tokens then are the number and those
of the unit at their new place. The text stands for the number with the terms of the unit applied
to it one after another, which has the dimension of the unit, and so does the text with a blank
between number and unit. -/
theorem parse_numbered {vocabulary : Vocabulary} {numeral unit : Text}
    {number final symbol : Token} {others : List Token} {value : Float} {integer : Option Int}
    {quantity : Quantity} (hnumeral : Token.ofText numeral = .ok [number, final])
    (hnumber : number.kind = .number value integer) (hspaced : final.spaced = false)
    (hunit : Token.ofText unit = .ok (symbol :: others)) (hsymbol : symbol.kind = .symbol)
    (hparse : vocabulary.parse unit = .ok quantity) :
    Token.ofText (numeral ++ unit) =
        .ok (number :: (symbol :: others).map (Token.shift numeral.length)) ∧
      ∃ body last meanings result, symbol :: others = body ++ [last] ∧
        Grammar.Expression body none (meanings.map Meaning.factor) ∧
        Meaning.Interprets vocabulary meanings ∧
        vocabulary.parse (numeral ++ unit) = .ok result ∧
        result.dimension = quantity.dimension ∧
        Meaning.product (some (.number value)) meanings = some result.exact ∧
        vocabulary.parse (numeral ++ 32 :: unit) = .ok result := by
  obtain ⟨body, last, first?, meanings, htokens, hlast, hexpression, hreadings, hrange, hproduct⟩ :=
    parse_eq_ok_iff.mp hparse
  have hsplit := Except.ok.inj (hunit.symm.trans htokens)
  -- the symbol is not the end of input, so that the expression starts with it
  obtain ⟨rest, rfl, rfl⟩ : ∃ rest, body = symbol :: rest ∧ others = rest ++ [last] := by
    cases body with
    | nil =>
      obtain ⟨rfl, _⟩ := List.cons.inj hsplit
      cases hlast.symm.trans hsymbol
    | cons token rest =>
      obtain ⟨rfl, rfl⟩ := List.cons.inj hsplit
      exact ⟨rest, rfl, rfl⟩
  obtain rfl := hexpression.number_eq_none hsymbol
  have hjoined := Token.ofText_numbered hnumeral hnumber hspaced hunit hsymbol
    (hexpression.not_number_head hsymbol hlast)
  obtain ⟨hwithin, unitProduct, hnumbered, hexponent⟩ :=
    Meaning.product_number hexpression hrange hproduct value
  obtain ⟨result, hresult⟩ := (hexpression.number_cons hnumber).exists_quantity hwithin
  have hdimension : result.dimension = quantity.dimension := by
    obtain rfl := Option.some.inj (hnumbered.symm.trans hresult)
    exact Dimension.ext_exponent (congrFun hexponent)
  have hparsed := parse_of_numbered hjoined hnumber hlast hexpression hreadings hwithin hresult
  exact ⟨hjoined, symbol :: rest, last, meanings, result, rfl, hexpression, hreadings, hparsed,
    hdimension, hresult, parse_of_blank hnumeral hnumber hspaced hjoined hparsed⟩

/-- The electronvolt. -/
def electronvolts : Vocabulary :=
  empty.withUnit ⟨utf8 "eV", 1.602176634e-19, SI.Kind.energy, utf8 "electronvolt", []⟩

theorem parse_numbered_electronvolt :
    ∃ quantity result, electronvolts.parse (utf8 "eV") = .ok quantity ∧
      electronvolts.parse (utf8 "1" ++ utf8 "eV") = .ok result ∧
      result.dimension = quantity.dimension ∧
      electronvolts.parse (utf8 "1" ++ 32 :: utf8 "eV") = .ok result := by
  have hone : (Numeral.ofInt 1).codes ++ [] = [49] := by cbv
  have hnumber : Utf8.decodeAll (utf8 "1") = ((Numeral.ofInt 1).codes ++ [], none) :=
    hone ▸ @Utf8.decodeAll_encodeAll [49] (by decide)
  have hnumeral := Token.ofText_eq_ok_iff.mpr ⟨_, hnumber,
    @Lexer.Reads.integer_append 0 false 1 [] _ (by decide) (by simp [Numeral.EndsInteger])
      (.finish _ false)⟩
  have hcodes : Utf8.decodeAll (utf8 "eV") = ([101, 86], none) :=
    @Utf8.decodeAll_encodeAll [101, 86] (by decide)
  have hunit : Token.ofText (utf8 "eV") =
      .ok ([⟨.symbol, utf8 "eV", 0, false⟩] ++ [⟨.finish, [], 2, false⟩]) := by
    rw [Token.ofText, hcodes]
    exact Fallible.mapError_eq_ok_iff.mpr (by cbv)
  have hexpression : Grammar.Expression [⟨.symbol, utf8 "eV", 0, false⟩] none
      [⟨false, ⟨utf8 "eV", 0⟩, 1⟩] := .terms (.mk rfl .implicit) .nil
  obtain ⟨quantity, hparse⟩ : ∃ quantity, electronvolts.parse (utf8 "eV") = .ok quantity :=
    ⟨_, parse_eq_ok_iff_evaluateFactors.mpr ⟨_, _, _, _, hunit, rfl, hexpression, _, rfl, rfl⟩⟩
  obtain ⟨_, _, _, _, result, _, _, _, hnumbered, hdimension, _, hblank⟩ :=
    parse_numbered hnumeral rfl rfl hunit rfl hparse
  exact ⟨quantity, result, hparse, hnumbered, hdimension, hblank⟩

end Vocabulary

end Metrology
