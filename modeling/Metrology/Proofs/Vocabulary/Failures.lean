import Metrology.Proofs.Expression.Refusals
import Metrology.Proofs.Vocabulary.Resolution
import Metrology.Expression.Evaluation

/-!
# Why a text has no quantity

A text that has no quantity is refused because an exponent leaves the range of exponents, or at a
byte offset of the text: for a lexical fault, a fault of grammar or a symbol that has no reading
(`Vocabulary.Locates`). Each of the three steps of reading a text, its tokens, their outline and the
readings of its factors, can fail in these ways only.
-/

set_option autoImplicit false
set_option relaxedAutoImplicit false

namespace Metrology

open Fallible

/-! ### Exponents out of range -/

/-- The error of an exponent that is out of range. -/
def DimensionError.IsOverflow (error : DimensionError) : Prop :=
  ∃ exponent identifier, ¬ InExponentRange exponent ∧
    error = .exponentOutOfRange exponent identifier

theorem Dimension.isOverflow_of_ofExponents {identifiers : List Text} {exponent : Text → Int}
    {error : DimensionError} (hfailed : ofExponents identifiers exponent = .error error) :
    error.IsOverflow := by
  unfold ofExponents at hfailed
  split at hfailed
  · next identifier hfirst =>
    cases hfailed
    have houtside := List.find?_some hfirst
    exact ⟨_, identifier, of_decide_eq_true houtside, rfl⟩
  · cases hfailed

theorem Quantity.isOverflow_of_power {quantity : Quantity} {exponent : Int} {error : DimensionError}
    (hfailed : quantity.power exponent = .error error) : error.IsOverflow :=
  Dimension.isOverflow_of_ofExponents (map_eq_error_iff.mp hfailed)

theorem Quantity.isOverflow_of_mul {first second : Quantity} {error : DimensionError}
    (hfailed : first.mul second = .error error) : error.IsOverflow :=
  Dimension.isOverflow_of_ofExponents (map_eq_error_iff.mp hfailed)

theorem Quantity.isOverflow_of_div {first second : Quantity} {error : DimensionError}
    (hfailed : first.div second = .error error) : error.IsOverflow :=
  Dimension.isOverflow_of_ofExponents (map_eq_error_iff.mp hfailed)

/-! ### Factors -/

theorem Factor.quantity_eq_error {vocabulary : Vocabulary} {input : Text} {factor : Factor}
    {error : Error} (hfailed : factor.quantity vocabulary input = .error error) :
    factor.occurrence.resolve vocabulary input = .error error ∨
      ∃ overflow : DimensionError, overflow.IsOverflow ∧ error = .dimension overflow := by
  rcases bind_eq_error_iff.mp hfailed with hresolve | ⟨reading, _, hpower⟩
  · exact .inl hresolve
  · obtain ⟨overflow, hoverflow, rfl⟩ := mapError_eq_error_iff.mp hpower
    exact .inr ⟨overflow, Quantity.isOverflow_of_power hoverflow, rfl⟩

theorem Factor.apply_eq_error {factor : Factor} {left : Option Quantity} {quantity : Quantity}
    {error : Error} (hfailed : factor.apply left quantity = .error error) :
    ∃ overflow : DimensionError, overflow.IsOverflow ∧ error = .dimension overflow := by
  unfold Factor.apply at hfailed
  split at hfailed
  · cases hfailed
  · obtain ⟨overflow, hoverflow, rfl⟩ := mapError_eq_error_iff.mp hfailed
    refine ⟨overflow, ?_, rfl⟩
    split at hoverflow
    · exact Quantity.isOverflow_of_div hoverflow
    · exact Quantity.isOverflow_of_mul hoverflow

/-- Factors fail by the reading of one of them, or by an exponent out of range. -/
theorem evaluateFactors_eq_error {vocabulary : Vocabulary} {input : Text} {left : Option Quantity}
    {factors : List Factor} {error : Error}
    (hfailed : evaluateFactors vocabulary input left factors = .error error) :
    (∃ factor ∈ factors, factor.occurrence.resolve vocabulary input = .error error) ∨
      ∃ overflow : DimensionError, overflow.IsOverflow ∧ error = .dimension overflow := by
  induction factors generalizing left with
  | nil => cases hfailed
  | cons factor rest ih =>
    rcases bind_eq_error_iff.mp hfailed with hfirst | ⟨result, _, hrest⟩
    · rcases bind_eq_error_iff.mp hfirst with hquantity | ⟨quantity, _, hoverflow⟩
      · exact (Factor.quantity_eq_error hquantity).imp_left
          fun hresolve ↦ ⟨factor, List.mem_cons_self, hresolve⟩
      · exact .inr (Factor.apply_eq_error hoverflow)
    · exact (ih hrest).imp_left
        fun ⟨other, hother, hresolve⟩ ↦ ⟨other, List.mem_cons_of_mem factor hother, hresolve⟩

/-! ### Texts -/

namespace Vocabulary

/-- The errors of a text without quantity. All but the first carry the text and a byte offset of
it. -/
inductive Locates (vocabulary : Vocabulary) (text : Text) : Error → Prop
  | exponent {exponent : Int} {identifier : Text} (outOfRange : ¬ InExponentRange exponent) :
      Locates vocabulary text (.dimension (.exponentOutOfRange exponent identifier))
  | lexical {fault : LexicalFault} {position : Nat} (position_le : position ≤ text.length)
      (quotes : ∀ quoted ∈ fault.quoted?, text.HoldsAt quoted position) :
      Locates vocabulary text (.expression ⟨.lexical fault, text, position⟩)
  | grammar {fault : GrammarFault} {position : Nat} (position_le : position ≤ text.length)
      (ne_unterminated : fault ≠ .unterminated) :
      Locates vocabulary text (.expression ⟨.grammar fault, text, position⟩)
  | unknown {tokens : List Token} {token : Token} (tokens_eq : Token.ofText text = .ok tokens)
      (mem : token ∈ tokens) (kind_eq : token.kind = .symbol)
      (position_le : token.position ≤ text.length)
      (holds : text.HoldsAt token.text token.position)
      (resolve_eq : vocabulary.resolve token.text = .error (.unknown token.text)) :
      Locates vocabulary text (.expression ⟨.symbol (.unknown token.text), text, token.position⟩)

/-- Tokens stand in their text. -/
theorem holdsAt_of_ofText {text : Text} {tokens : List Token} {token : Token}
    (htokens : Token.ofText text = .ok tokens) (htoken : token ∈ tokens) :
    text.HoldsAt token.text token.position := by
  obtain ⟨before, after, rfl⟩ := List.append_of_mem htoken
  obtain ⟨taken, gap, left, htext, _, _, _, hposition⟩ :=
    (Token.laysOut_of_ofText htokens).exists_parts
  exact ⟨taken ++ gap, left, by rw [htext, List.append_assoc],
    by rw [List.length_append, hposition]⟩

namespace WellFormed

variable {vocabulary : Vocabulary} (hvocabulary : vocabulary.WellFormed) {text : Text}
  {tokens : List Token} {error : Error}

include hvocabulary

theorem locates_of_resolve (htokens : Token.ofText text = .ok tokens) {occurrence : Occurrence}
    (hoccurrence : occurrence.IsIn tokens)
    (hfailed : occurrence.resolve vocabulary text = .error error) :
    vocabulary.Locates text error := by
  obtain ⟨token, htoken, heq⟩ := hoccurrence
  unfold Grammar.occurrence? at heq
  split at heq
  · next hsymbol =>
    cases heq
    obtain ⟨fault, hresolve, rfl⟩ := mapError_eq_error_iff.mp hfailed
    obtain rfl := (hvocabulary.resolve_eq_error_iff.mp hresolve).1
    have hholds := holdsAt_of_ofText htokens htoken
    exact .unknown htokens htoken hsymbol hholds.position_le hholds hresolve
  · cases heq

theorem locates_of_ending (htokens : Token.ofText text = .ok tokens)
    {unfinished : Option Occurrence} {refusal : GrammarRefusal}
    (hunfinished : ∀ occurrence ∈ unfinished, occurrence.IsIn tokens)
    (hlies : refusal.LiesIn tokens) :
    vocabulary.Locates text (Ending.error vocabulary text unfinished refusal) := by
  have hfault : vocabulary.Locates text
      (.expression ⟨.grammar refusal.fault, text, refusal.position⟩) := by
    refine .grammar ?_ hlies.ne_unterminated
    rcases hlies.position_eq with hzero | ⟨token, htoken, hposition⟩
    · rw [hzero]
      exact Nat.zero_le _
    · rw [← hposition]
      exact (holdsAt_of_ofText htokens htoken).position_le
  unfold Ending.error
  split
  · exact hfault
  · next occurrence =>
    split
    · exact hfault
    · next error herror =>
      exact hvocabulary.locates_of_resolve htokens (hunfinished occurrence rfl) herror

/-- An outline of the tokens of a text fails at one of them. -/
theorem locates_of_evaluate (htokens : Token.ofText text = .ok tokens)
    (hfailed : (Outline.ofTokens tokens).evaluate vocabulary text = .error error) :
    vocabulary.Locates text error := by
  obtain ⟨body, final, rfl, hfinal, _⟩ := Token.eq_append_finish_of_ofText htokens
  have haccounts := Outline.accountsFor_ofTokens ⟨body, final, rfl, hfinal⟩
  rcases bind_eq_error_iff.mp hfailed with hfactors | ⟨result, _, hending⟩
  · rcases evaluateFactors_eq_error hfactors with
      ⟨factor, hfactor, hresolve⟩ | ⟨overflow, ⟨exponent, identifier, hrange, rfl⟩, rfl⟩
    · exact hvocabulary.locates_of_resolve htokens (haccounts.factors factor hfactor) hresolve
    · exact .exponent hrange
  · split at hending
    · cases hending
    · next unfinished refusal hbroken =>
      cases hending
      refine hvocabulary.locates_of_ending htokens (fun occurrence hmem ↦ ?_)
        (haccounts.refusal unfinished refusal hbroken)
      cases hmem
      exact haccounts.unfinished occurrence refusal hbroken

theorem locates_of_parse (hfailed : vocabulary.parse text = .error error) :
    vocabulary.Locates text error := by
  rcases bind_eq_error_iff.mp hfailed with htokens | ⟨tokens, htokens, hevaluate⟩
  · obtain ⟨_, hread, rfl⟩ := mapError_eq_error_iff.mp htokens
    obtain ⟨fault, position, rfl, hposition, hquotes⟩ := Token.ofText_eq_error hread
    exact .lexical hposition hquotes
  · exact hvocabulary.locates_of_evaluate (mapError_eq_ok_iff.mp htokens) hevaluate

end WellFormed

end Vocabulary

end Metrology
