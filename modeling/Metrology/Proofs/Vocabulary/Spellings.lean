import Mathlib.Logic.Relation
import Metrology.Proofs.Expression.Meaning
import Metrology.Proofs.Expression.Rewriting
import Metrology.SI.Kinds

/-!
# Spellings of one quantity

A text that stands for a quantity stands for the same one however it is spelled: with any signs of
multiplication, with blanks in their place, and with any blanks where blanks may stand
(`Vocabulary.parse_of_rewriting`). Rewriting respells the tokens, respelled tokens are an expression
with the same number and with the same factors but for their places, and these are told in errors
only (`evaluateFactors_unplaced`).
-/

set_option autoImplicit false
set_option relaxedAutoImplicit false

namespace Metrology

/-! ### Places and the text are told in errors only -/

theorem quantity_unplaced_eq_ok_iff {vocabulary : Vocabulary} {input other : Text}
    {factor : Factor} {quantity : Quantity} :
    factor.unplaced.quantity vocabulary other = .ok quantity ↔
      factor.quantity vocabulary input = .ok quantity := by
  simp only [Factor.quantity, Occurrence.resolve, Fallible.bind_eq_ok_iff,
    Fallible.mapError_eq_ok_iff, Factor.unplaced]

theorem evaluateFactors_unplaced {vocabulary : Vocabulary} {input other : Text}
    {left result : Option Quantity} {factors : List Factor} :
    evaluateFactors vocabulary other left (factors.map Factor.unplaced) = .ok result ↔
      evaluateFactors vocabulary input left factors = .ok result := by
  induction factors generalizing left with
  | nil => exact Iff.rfl
  | cons factor rest ih =>
    simp only [List.map_cons, evaluateFactors, Fallible.bind_eq_ok_iff, ih,
      @quantity_unplaced_eq_ok_iff vocabulary input other factor]
    rfl

namespace Vocabulary

variable {vocabulary : Vocabulary} {text other : Text} {quantity : Quantity}

/-- Expressions with the same number, and with the same factors but for their places, stand for the
same quantity. -/
theorem parse_of_unplaced {number : Option Float} {factors others : List Factor}
    (hexpression : text.IsExpression number factors)
    (hother : other.IsExpression number others)
    (hsame : others.map Factor.unplaced = factors.map Factor.unplaced)
    (hparse : vocabulary.parse text = .ok quantity) : vocabulary.parse other = .ok quantity := by
  obtain ⟨body, final, number', factors', htokens, hfinal, hbody, value, hvalue, hquantity⟩ :=
    parse_eq_ok_iff_evaluateFactors.mp hparse
  obtain ⟨rfl, rfl⟩ := hexpression.unique ⟨body, final, htokens, hfinal, hbody⟩
  obtain ⟨otherBody, last, hread, hlast, hothers⟩ := hother
  refine parse_eq_ok_iff_evaluateFactors.mpr
    ⟨otherBody, last, number, others, hread, hlast, hothers, value, ?_, hquantity⟩
  -- neither the places of the factors nor the text matter
  rw [← @evaluateFactors_unplaced vocabulary other text, hsame, evaluateFactors_unplaced]
  exact hvalue

/-- Respelled tokens stand for the same quantity. -/
theorem parse_of_respelled {attached : Prop} {tokens others : List Token}
    (htokens : Token.ofText text = .ok tokens) (hothers : Token.ofText other = .ok others)
    (hrespelled : Grammar.Respelled attached tokens others)
    (hparse : vocabulary.parse text = .ok quantity) : vocabulary.parse other = .ok quantity := by
  obtain ⟨body, final, number, factors, hread, hfinal, hexpression, _⟩ :=
    parse_eq_ok_iff_evaluateFactors.mp hparse
  obtain rfl := Except.ok.inj (htokens.symm.trans hread)
  obtain ⟨respelled, last, behind, rfl, hlast, hother, hfactors⟩ :=
    hexpression.exists_of_respelled hfinal hrespelled
  exact parse_of_unplaced ⟨body, final, htokens, hfinal, hexpression⟩
    ⟨respelled, last, hothers, hlast, hother⟩ hfactors hparse

theorem parse_of_step (hstep : Rewriting text other)
    (hparse : vocabulary.parse text = .ok quantity) : vocabulary.parse other = .ok quantity := by
  obtain ⟨_, _, _, _, htokens, _⟩ := parse_eq_ok_iff_evaluateFactors.mp hparse
  obtain ⟨others, hothers, hrespelled⟩ := hstep.exists_respelled htokens
  exact parse_of_respelled htokens hothers hrespelled hparse

/-- For every vocabulary. A text that stands for a quantity may be rewritten any number of times, and
stands for that same quantity: signs of multiplication may be any, or blanks in their place; blanks
may be any blanks; and blanks may be added at the start, at the end, behind the number that the text
starts with, and on both sides of every operator. -/
theorem parse_of_rewriting (hrewriting : Relation.ReflTransGen Rewriting text other)
    (hparse : vocabulary.parse text = .ok quantity) : vocabulary.parse other = .ok quantity := by
  induction hrewriting with
  | refl => exact hparse
  | tail _ hstep ih => exact parse_of_step hstep ih

/-- The metre and the second. -/
def motion : Vocabulary :=
  (empty.withUnit ⟨utf8 "m", 1.0, SI.Kind.length, utf8 "metre", []⟩).withUnit
    ⟨utf8 "s", 1.0, SI.Kind.time, utf8 "second", []⟩

theorem parse_of_rewriting_motion :
    ∃ quantity, motion.parse (utf8 "m*s") = .ok quantity ∧
      Relation.ReflTransGen Rewriting (utf8 "m*s") (utf8 "m" ++ (utf8 "\u00A0" ++ utf8 "s") ++ [32]) ∧
      motion.parse (utf8 "m" ++ (utf8 "\u00A0" ++ utf8 "s") ++ [32]) = .ok quantity := by
  have hcodes : Utf8.decodeAll (utf8 "m*s") = ([109, 42, 115], none) :=
    @Utf8.decodeAll_encodeAll [109, 42, 115] (by decide)
  have htokens : Token.ofText (utf8 "m*s") =
      .ok ([⟨.symbol, utf8 "m", 0, false⟩, ⟨.times, utf8 "*", 1, false⟩,
        ⟨.symbol, utf8 "s", 2, false⟩] ++ [⟨.finish, [], 3, false⟩]) := by
    rw [Token.ofText, hcodes]
    exact Fallible.mapError_eq_ok_iff.mpr (by cbv)
  have hexpression : Grammar.Expression [⟨.symbol, utf8 "m", 0, false⟩,
      ⟨.times, utf8 "*", 1, false⟩, ⟨.symbol, utf8 "s", 2, false⟩] none
      [⟨false, ⟨utf8 "m", 0⟩, 1⟩, ⟨false, ⟨utf8 "s", 2⟩, 1⟩] :=
    .terms (.mk rfl .implicit) (@Grammar.Tail.operator _ false _ _ _ _ rfl (.mk rfl .implicit) .nil)
  obtain ⟨quantity, hparse⟩ : ∃ quantity, motion.parse (utf8 "m*s") = .ok quantity :=
    ⟨_, parse_eq_ok_iff_evaluateFactors.mpr
      ⟨_, _, _, _, htokens, rfl, hexpression, _, rfl, rfl⟩⟩
  have hbetween : Token.IsBetween ⟨.times, utf8 "*", 1, false⟩ (utf8 "m") (utf8 "s")
      (utf8 "m*s") :=
    ⟨⟨_, htokens, by simp⟩, by decide, by decide⟩
  have hspace : Text.IsBlanks (utf8 "\u00A0") :=
    ⟨⟨[[0xC2, 0xA0]], by decide, by decide⟩, by decide⟩
  have hblank : Text.IsBlanks [32] := ⟨⟨[[32]], by decide, rfl⟩, by decide⟩
  have hrewriting : Relation.ReflTransGen Rewriting (utf8 "m*s")
      (utf8 "m" ++ (utf8 "\u00A0" ++ utf8 "s") ++ [32]) :=
    (Relation.ReflTransGen.single (.implicit hbetween rfl hspace)).tail (.finish hblank)
  exact ⟨quantity, hparse, hrewriting, parse_of_rewriting hrewriting hparse⟩

end Vocabulary

end Metrology
