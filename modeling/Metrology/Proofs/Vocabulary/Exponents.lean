import Metrology.Proofs.Expression.ExponentForms
import Metrology.Proofs.Vocabulary.SignedSums

/-!
# One exponent in two forms

What stands around an exponent does not depend on the form of the exponent, so that a text stands
for the same quantity with a caret and with superscripts (`Vocabulary.parse_of_between`). The
exponent that is applied is the one that is written, and it is refused in either form when it is too
large (`Vocabulary.parse_refusal`). Behind a caret this may be decided on a double, also where the
digits are more than a double keeps (`Token.exponent?_of_ofText`).
-/

set_option autoImplicit false
set_option relaxedAutoImplicit false

namespace Metrology

open Lexer Grammar

namespace Vocabulary

variable {vocabulary : Vocabulary}

/-- Factors are evaluated one part after the other. -/
theorem evaluateFactors_append {input : Text} {left : Option Quantity}
    {first second : List Factor} :
    evaluateFactors vocabulary input left (first ++ second) =
      (evaluateFactors vocabulary input left first).bind fun result ↦
        evaluateFactors vocabulary input result second := by
  induction first generalizing left with
  | nil => rfl
  | cons factor rest ih =>
    rw [List.cons_append, evaluateFactors, evaluateFactors]
    cases (factor.quantity vocabulary input).bind (factor.apply left) with
    | error error => rfl
    | ok quantity => exact ih

section

variable {written : WrittenExponent} {form : ExponentForm} {before after : Text}
  {quantity : Quantity} (hbefore : before.EndsInSymbol)
  (hafter : after = [] ∨ StartsSeparated after)

include hbefore hafter

/-- An exponent may be written in another form. -/
theorem parse_of_between
    (hparse : vocabulary.parse (written.between form before after) = .ok quantity)
    (otherForm : ExponentForm) :
    vocabulary.parse (written.between otherForm before after) = .ok quantity := by
  obtain ⟨number, meanings, hexpression, _⟩ := parse_eq_ok_iff_isExpression.mp hparse
  obtain ⟨hlimit, earlier, inverted, occurrence, later, hsurrounds, hfactors⟩ :=
    (Text.isExpression_between_iff hbefore hafter).mp hexpression
  obtain ⟨others, hmoved, hsame⟩ :=
    hsurrounds.exists_moved (before.length + (written.text otherForm).length)
  have hother := (Text.isExpression_between_iff hbefore hafter).mpr
    ⟨hlimit, earlier, inverted, occurrence, others, hmoved, rfl⟩
  refine parse_of_unplaced hexpression hother ?_ hparse
  rw [hfactors, List.map_append, List.map_append, List.map_cons, List.map_cons, hsame]

/-- An exponent that is too large is refused where another exponent stands for a quantity. -/
theorem parse_refusal (hparse : vocabulary.parse (written.between form before after) = .ok quantity)
    {other : WrittenExponent} (hlarge : exponentLimit < other.value.natAbs)
    (otherForm : ExponentForm) :
    vocabulary.parse (other.between otherForm before after) = .error (.expression
      (other.refusal (other.between otherForm before after) before.length otherForm)) := by
  obtain ⟨body, final, number, factors, hread, hfinal, hbody, value, hvalue, _⟩ :=
    parse_eq_ok_iff_evaluateFactors.mp hparse
  obtain ⟨_, earlier, inverted, _, later, ⟨⟨front, symbol, last, hbeforeRead, rfl, hplace⟩, rest,
    final, ⟨codes, hcodes, hrest⟩, _⟩, rfl⟩ :=
    (Text.isExpression_between_iff hbefore hafter).mp ⟨body, final, hread, hfinal, hbody⟩
  rw [parse, Token.ofText_exponent hbefore hafter hbeforeRead hcodes]
  cases hreading : other.reading before.length otherForm with
  | error refused => rw [other.refusal_of_reading_eq_error hreading]; rfl
  | ok power =>
    -- the reader comes to the exponent, and the symbol before it has a reading
    obtain ⟨others, hothers⟩ :=
      hrest.exists_reads (before.length + (other.text otherForm).length) false
    obtain ⟨result, hresult, _⟩ :=
      Fallible.bind_eq_ok_iff.mp (evaluateFactors_append.symm.trans hvalue)
    obtain ⟨reading, hsymbol⟩ :=
      resolve_of_evaluateFactors hvalue _ (List.mem_append_right earlier List.mem_cons_self)
    have hexponent := other.exponent_append hreading others
    rw [if_pos hlarge] at hexponent
    have houtline : Outline.ofTokens (front ++ symbol :: (power ++ others)) =
        ⟨number, earlier, .broken (some ⟨symbol.text, symbol.position⟩)
          ⟨.exponentOutOfRange, before.length + 1⟩⟩ := hplace.refuse hexponent
    have hearlier : evaluateFactors vocabulary (other.between otherForm before after)
        (number.map .number) earlier = .ok result :=
      evaluateFactors_unplaced.mp ((@evaluateFactors_unplaced _ _ before).mpr hresult)
    rw [hothers.tokens_eq_ok]
    show (Outline.ofTokens (front ++ symbol :: (power ++ others))).evaluate vocabulary _ = _
    rw [houtline, Outline.evaluate, hearlier, other.refusal_of_reading_eq_ok hreading hlarge]
    show Except.error (Ending.error vocabulary _ (some ⟨symbol.text, symbol.position⟩) _) = _
    simp only [Ending.error, Occurrence.resolve, hsymbol]
    rfl

/-- An exponent that is not too large is refused only for the dimensions that it leads to, where
another exponent stands for a quantity. -/
theorem isOverflow_of_between
    (hparse : vocabulary.parse (written.between form before after) = .ok quantity)
    {other : WrittenExponent} (hlimit : other.value.natAbs ≤ exponentLimit)
    {otherForm : ExponentForm} {error : Error}
    (hfailed : vocabulary.parse (other.between otherForm before after) = .error error) :
    ∃ overflow : DimensionError, overflow.IsOverflow ∧ error = .dimension overflow := by
  obtain ⟨body, final, number, factors, hread, hfinal, hbody, value, hvalue, _⟩ :=
    parse_eq_ok_iff_evaluateFactors.mp hparse
  obtain ⟨_, earlier, inverted, occurrence, later, hsurrounds, rfl⟩ :=
    (Text.isExpression_between_iff hbefore hafter).mp ⟨body, final, hread, hfinal, hbody⟩
  have hresolve := resolve_of_evaluateFactors hvalue
  obtain ⟨others, hmoved, hsame⟩ :=
    hsurrounds.exists_moved (before.length + (other.text otherForm).length)
  refine isOverflow_of_isExpression ((Text.isExpression_between_iff hbefore hafter).mpr
    ⟨hlimit, earlier, inverted, occurrence, others, hmoved, rfl⟩) (fun factor hfactor ↦ ?_) hfailed
  rcases List.mem_append.mp hfactor with hearlier | hfactor
  · exact hresolve factor (List.mem_append_left _ hearlier)
  rcases List.mem_cons.mp hfactor with rfl | hothers
  · exact hresolve ⟨inverted, occurrence, written.value⟩
      (List.mem_append_right _ List.mem_cons_self)
  · obtain ⟨placed, hplaced, hunplaced⟩ :=
      List.mem_map.mp (hsame ▸ List.mem_map_of_mem (f := Factor.unplaced) hothers)
    have hsymbol : placed.occurrence.symbol = factor.occurrence.symbol := by
      show placed.unplaced.occurrence.symbol = factor.unplaced.occurrence.symbol
      rw [hunplaced]
    rw [← hsymbol]
    exact hresolve placed (List.mem_append_right _ (List.mem_cons_of_mem _ hplaced))

/-- For every vocabulary, every exponent of digits with an optional sign, and all texts around it,
of which the first ends with a symbol and the second is empty or starts with a blank or an operator.
With the exponent behind a caret and with it in superscripts, both texts stand for the same quantity
or neither stands for any. If they do, the number that the digits stand for, with its sign, is the
exponent of that symbol in the product, and is at most the limit. Where any exponent leads to a
quantity, this one is refused at its place in either form when it is larger than the limit, and
otherwise only an exponent of a dimension out of its range is refused. Behind a caret the double of
the digits decides alike. -/
theorem parse_exponent_forms (written : WrittenExponent) :
    (∀ quantity, vocabulary.parse (written.between .caret before after) = .ok quantity ↔
      vocabulary.parse (written.between .raised before after) = .ok quantity) ∧
    (∀ form quantity, vocabulary.parse (written.between form before after) = .ok quantity →
      written.value.natAbs ≤ exponentLimit ∧
        ∃ number meanings earlier inverted occurrence later,
          (written.between form before after).IsExpression number (meanings.map Meaning.factor) ∧
          Meaning.Interprets vocabulary meanings ∧
          Meaning.product (number.map .number) meanings = some quantity.exact ∧
          meanings.map Meaning.factor = earlier ++ ⟨inverted, occurrence, written.value⟩ :: later ∧
          occurrence.position + occurrence.symbol.length = before.length) ∧
    (∀ (other : WrittenExponent) otherForm quantity,
      vocabulary.parse (other.between otherForm before after) = .ok quantity → ∀ form,
        (exponentLimit < written.value.natAbs →
          vocabulary.parse (written.between form before after) = .error (.expression
            (written.refusal (written.between form before after) before.length form))) ∧
        (written.value.natAbs ≤ exponentLimit → ∀ error,
          vocabulary.parse (written.between form before after) = .error error →
            ∃ overflow : DimensionError, overflow.IsOverflow ∧ error = .dimension overflow)) ∧
    ∀ tokens, Token.ofText (written.between .caret before after) = .ok tokens →
      ∀ token ∈ tokens, ∀ value integer, token.kind = .number value (some integer) →
        Real64.exponent? value =
          if exponentLimit < integer.natAbs then none else some integer := by
  refine ⟨fun quantity ↦ ⟨fun hparse ↦ parse_of_between hbefore hafter hparse .raised,
    fun hparse ↦ parse_of_between hbefore hafter hparse .caret⟩, fun form quantity hparse ↦ ?_,
    fun other otherForm quantity hparse form ↦
      ⟨fun hlarge ↦ parse_refusal hbefore hafter hparse hlarge form,
        fun hlimit error hfailed ↦ isOverflow_of_between hbefore hafter hparse hlimit hfailed⟩,
    fun tokens hread token htoken value integer hnumber ↦
      Token.exponent?_of_ofText hread htoken hnumber⟩
  obtain ⟨number, meanings, hexpression, hreadings, _, hproduct⟩ :=
    parse_eq_ok_iff_isExpression.mp hparse
  obtain ⟨hlimit, earlier, inverted, occurrence, later, ⟨⟨front, symbol, last, hread, rfl, _⟩, _⟩,
    hfactors⟩ := (Text.isExpression_between_iff hbefore hafter).mp hexpression
  obtain ⟨_, hstop, _⟩ := Token.symbol_of_ofText hbefore hread
  exact ⟨hlimit, number, meanings, earlier, inverted, _, later, hexpression, hreadings, hproduct,
    hfactors, hstop⟩

end

/-- The exponent minus two, with a zero in front of its digit. -/
def minusTwo : WrittenExponent :=
  ⟨some .minus, [0, 2], by decide, by decide⟩

/-- An exponent that is too large by one. -/
def tooLarge : WrittenExponent :=
  ⟨none, [2, 1, 4, 7, 4, 8, 3, 6, 4, 8], by decide, by decide⟩

theorem parse_exponent_forms_motion :
    ∃ quantity, motion.parse (utf8 "m^-02*s") = .ok quantity ∧
      motion.parse (utf8 "m⁻⁰²*s") = .ok quantity ∧
      motion.parse (utf8 "m^2147483648*s") =
        .error (.expression ⟨.grammar .exponentOutOfRange, utf8 "m^2147483648*s", 2⟩) ∧
      motion.parse (utf8 "m²¹⁴⁷⁴⁸³⁶⁴⁸*s") =
        .error (.expression ⟨.lexical .superscriptOutOfRange, utf8 "m²¹⁴⁷⁴⁸³⁶⁴⁸*s", 1⟩) := by
  have hbefore : (utf8 "m").EndsInSymbol := ⟨[], 109, by decide, by decide, by decide⟩
  have hafter : utf8 "*s" = [] ∨ StartsSeparated (utf8 "*s") :=
    .inr ⟨42, utf8 "s", by decide, by decide⟩
  have hforms := @parse_exponent_forms motion _ _ hbefore hafter
  obtain ⟨quantity, hparse⟩ : ∃ quantity, motion.parse (utf8 "m^-02*s") = .ok quantity := by
    have hsome : (motion.parse (utf8 "m^-02*s")).toBool = true := by decide +kernel
    cases hparse : motion.parse (utf8 "m^-02*s") with
    | error => rw [hparse] at hsome; cases hsome
    | ok quantity => exact ⟨quantity, rfl⟩
  have hcaret : minusTwo.between .caret (utf8 "m") (utf8 "*s") = utf8 "m^-02*s" := by decide
  have hraised : minusTwo.between .raised (utf8 "m") (utf8 "*s") = utf8 "m⁻⁰²*s" := by decide
  obtain ⟨hsame, _, _, _⟩ := hforms minusTwo
  rw [hcaret, hraised] at hsame
  obtain ⟨_, _, hother, _⟩ := hforms tooLarge
  have hrefused := fun form ↦ (hother minusTwo .caret quantity (hcaret ▸ hparse) form).1 (by decide)
  have hcaretRefused := hrefused .caret
  have hraisedRefused := hrefused .raised
  have hlarge : tooLarge.between .caret (utf8 "m") (utf8 "*s") = utf8 "m^2147483648*s" := by decide
  have hlargeRaised : tooLarge.between .raised (utf8 "m") (utf8 "*s") = utf8 "m²¹⁴⁷⁴⁸³⁶⁴⁸*s" := by
    decide
  rw [hlarge] at hcaretRefused
  rw [hlargeRaised] at hraisedRefused
  refine ⟨quantity, hparse, (hsame quantity).mp hparse, ?_, hraisedRefused⟩
  rw [hcaretRefused, WrittenExponent.refusal, if_pos (by decide +kernel)]
  rfl

end Vocabulary

end Metrology
