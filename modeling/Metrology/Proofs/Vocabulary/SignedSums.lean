import Mathlib.Algebra.BigOperators.Group.List.Basic
import Mathlib.Algebra.Ring.Int.Defs
import Metrology.Proofs.Vocabulary.Failures
import Metrology.Proofs.Vocabulary.Spellings

/-!
# Dimensions as sums

The exponents of a quantity are the sums of those of its terms, each times the exponent that is
written, and with a minus sign behind `/` (`Meaning.exponent_product`). They depend therefore on
the terms alone and not on their order, and `/ s^e` adds what `* s^-e` adds (`Factor.SameTerms`).
The order does matter to what is in range on the way: where one of two such expressions is refused
and the other is not, an exponent has left its range (`Vocabulary.exponents_of_terms`).
-/

set_option autoImplicit false
set_option relaxedAutoImplicit false

namespace Metrology

/-! ### Signs of factors -/

namespace Factor

/-- Minus one behind `/`, and one elsewhere. -/
def sign (factor : Factor) : Int :=
  if factor.inverted then -1 else 1

/-- The symbol of a factor with its exponent, which has the opposite sign behind `/`. -/
def power (factor : Factor) : Text × Int :=
  (factor.occurrence.symbol, factor.sign * factor.exponent)

/-- The same powers of symbols, in any order. -/
def SameTerms (factors others : List Factor) : Prop :=
  (factors.map power).Perm (others.map power)

namespace SameTerms

variable {factors others : List Factor}

/-- Factors may be put in another order, and stand elsewhere. -/
theorem of_perm (hperm : (factors.map unplaced).Perm (others.map unplaced)) :
    SameTerms factors others := by
  have hpowers := hperm.map power
  rw [List.map_map, List.map_map] at hpowers
  exact hpowers

/-- A factor behind `/` may stand behind a sign of multiplication, with the opposite exponent. -/
theorem invert (before after : List Factor) (occurrence other : Occurrence) (exponent : Int)
    (hsymbol : occurrence.symbol = other.symbol) :
    SameTerms (before ++ ⟨true, occurrence, exponent⟩ :: after)
      (before ++ ⟨false, other, -exponent⟩ :: after) := by
  have hpower : power ⟨true, occurrence, exponent⟩ = power ⟨false, other, -exponent⟩ := by
    simp [power, sign, hsymbol]
  rw [SameTerms, List.map_append, List.map_append, List.map_cons, List.map_cons, hpower]

theorem trans {last : List Factor} (hfirst : SameTerms factors others)
    (hlast : SameTerms others last) : SameTerms factors last :=
  List.Perm.trans hfirst hlast

end SameTerms

end Factor

/-! ### Exponents of products -/

namespace Meaning

/-- What a term adds to the exponent of a base dimension. -/
def summand (identifier : Text) (meaning : Meaning) : Int :=
  meaning.factor.sign * meaning.factor.exponent * meaning.reading.dimension.exponent identifier

theorem exponent_apply (left : ExactQuantity) (meaning : Meaning) (identifier : Text) :
    (meaning.apply (some left)).exponent identifier =
      left.exponent identifier + meaning.summand identifier := by
  unfold apply summand Factor.sign
  dsimp only
  split
  · rw [Int.neg_one_mul, Int.neg_mul]
    exact Int.sub_eq_add_neg
  · rw [Int.one_mul]
    rfl

theorem exponent_product_some {left value : ExactQuantity} {meanings : List Meaning}
    (hproduct : product (some left) meanings = some value) (identifier : Text) :
    value.exponent identifier =
      left.exponent identifier + (meanings.map (summand identifier)).sum := by
  induction meanings generalizing left with
  | nil =>
    cases hproduct
    simp
  | cons meaning rest ih =>
    rw [ih hproduct, exponent_apply, List.map_cons, List.sum_cons, Int.add_assoc]

/-- The exponents of an expression are the sums of what its terms add. -/
theorem exponent_product {body : List Token} {number : Option Float} {meanings : List Meaning}
    (hexpression : Grammar.Expression body number (meanings.map Meaning.factor))
    {value : ExactQuantity} (hproduct : product (number.map .number) meanings = some value)
    (identifier : Text) : value.exponent identifier = (meanings.map (summand identifier)).sum := by
  cases number with
  | some number =>
    rw [exponent_product_some hproduct]
    exact Int.zero_add _
  | none =>
    cases meanings with
    | nil => cases hexpression
    | cons meaning rest =>
      have hfirst : meaning.term.exponent identifier = meaning.summand identifier := by
        rw [summand, Factor.sign, if_neg (by simp [hexpression.inverted_head]), Int.one_mul]
        rfl
      rw [exponent_product_some hproduct, List.map_cons, List.sum_cons, ← hfirst]
      rfl

end Meaning

namespace Vocabulary

variable {vocabulary : Vocabulary}

/-- The exponent of a base dimension in what a symbol is read as; zero where it is not. -/
def symbolExponent (vocabulary : Vocabulary) (identifier symbol : Text) : Int :=
  match vocabulary.resolve symbol with
  | .ok reading => reading.dimension.exponent identifier
  | .error _ => 0

/-- What terms add depends on their powers only. -/
theorem sum_summand_eq {meanings : List Meaning}
    (hreadings : Meaning.Interprets vocabulary meanings) (identifier : Text) :
    (meanings.map (Meaning.summand identifier)).sum =
      (((meanings.map Meaning.factor).map Factor.power).map fun power ↦
        power.2 * vocabulary.symbolExponent identifier power.1).sum := by
  rw [List.map_map, List.map_map]
  refine congrArg List.sum (List.map_congr_left fun meaning hmeaning ↦ ?_)
  have hreading : vocabulary.symbolExponent identifier meaning.factor.occurrence.symbol =
      meaning.reading.dimension.exponent identifier := by
    rw [symbolExponent, hreadings meaning hmeaning]
  show meaning.summand identifier = meaning.factor.sign * meaning.factor.exponent *
    vocabulary.symbolExponent identifier meaning.factor.occurrence.symbol
  rw [hreading]
  rfl

/-- An expression whose symbols have readings is refused for an exponent out of range only. -/
theorem isOverflow_of_isExpression {text : Text} {number : Option Float} {factors : List Factor}
    {error : Error} (hexpression : text.IsExpression number factors)
    (hresolve : ∀ factor ∈ factors,
      ∃ reading, vocabulary.resolve factor.occurrence.symbol = .ok reading)
    (hfailed : vocabulary.parse text = .error error) :
    ∃ overflow : DimensionError, overflow.IsOverflow ∧ error = .dimension overflow := by
  obtain ⟨body, final, htokens, hfinal, hbody⟩ := hexpression
  rw [parse, htokens] at hfailed
  have hevaluate : (Outline.ofTokens (body ++ [final])).evaluate vocabulary text = .error error :=
    hfailed
  rw [hbody.ofTokens_append hfinal] at hevaluate
  rcases Fallible.bind_eq_error_iff.mp hevaluate with hfactors | ⟨_, _, hending⟩
  · rcases evaluateFactors_eq_error hfactors with ⟨factor, hfactor, hrefused⟩ | hoverflow
    · obtain ⟨reading, hreading⟩ := hresolve factor hfactor
      rw [Occurrence.resolve, hreading] at hrefused
      cases hrefused
    · exact hoverflow
  · cases hending

end Vocabulary

/-- The symbols of the same terms have readings as well. -/
theorem Factor.SameTerms.resolve {vocabulary : Vocabulary} {factors others : List Factor}
    (hsame : SameTerms factors others) (hresolve : ∀ factor ∈ factors,
      ∃ reading, vocabulary.resolve factor.occurrence.symbol = .ok reading) :
    ∀ other ∈ others, ∃ reading, vocabulary.resolve other.occurrence.symbol = .ok reading := by
  intro other hother
  obtain ⟨factor, hfactor, hpower⟩ :=
    List.mem_map.mp (hsame.mem_iff.mpr (List.mem_map_of_mem (f := power) hother))
  have hsymbol : factor.occurrence.symbol = other.occurrence.symbol := congrArg Prod.fst hpower
  exact hsymbol ▸ hresolve factor hfactor

namespace Vocabulary

/-- For every vocabulary and text. Where the text stands for a quantity, the exponent of each base
dimension is the sum, over the terms of the text, of the exponent in the reading of the symbol times
the exponent that is written, with a minus sign behind `/`. Any other text with the same terms, in
any order and with `/ s^e` for `* s^-e` or the other way round, has the same dimension if it stands
for a quantity. If it does not, an exponent has left its range. -/
theorem exponents_of_terms (vocabulary : Vocabulary) (text : Text) :
    (∀ result, vocabulary.parse text = .ok result →
      ∃ number meanings, text.IsExpression number (meanings.map Meaning.factor) ∧
        Meaning.Interprets vocabulary meanings ∧
        ∀ identifier, result.dimension.exponent identifier =
          (meanings.map fun meaning ↦ meaning.factor.sign * meaning.factor.exponent *
            meaning.reading.dimension.exponent identifier).sum) ∧
      ∀ other number factors number' factors', text.IsExpression number factors →
        other.IsExpression number' factors' → Factor.SameTerms factors factors' →
        (∀ first second, vocabulary.parse text = .ok first → vocabulary.parse other = .ok second →
          first.dimension = second.dimension) ∧
        ∀ result error, vocabulary.parse text = .ok result →
          vocabulary.parse other = .error error →
          ∃ exponent identifier, ¬ InExponentRange exponent ∧
            error = .dimension (.exponentOutOfRange exponent identifier) := by
  have hsum : ∀ {text result}, vocabulary.parse text = .ok result →
      ∃ number meanings, text.IsExpression number (meanings.map Meaning.factor) ∧
        Meaning.Interprets vocabulary meanings ∧ ∀ identifier,
        result.dimension.exponent identifier = (meanings.map (Meaning.summand identifier)).sum := by
    intro text result hresult
    obtain ⟨number, meanings, hexpression, hreadings, _, hproduct⟩ :=
      parse_eq_ok_iff_isExpression.mp hresult
    refine ⟨number, meanings, hexpression, hreadings, ?_⟩
    obtain ⟨_, _, _, _, hbody⟩ := hexpression
    exact Meaning.exponent_product hbody hproduct
  refine ⟨fun result hresult ↦ hsum hresult, ?_⟩
  intro other number factors number' factors' hexpression hother hsame
  refine ⟨fun first second hfirst hsecond ↦ ?_, fun result error hresult hfailed ↦ ?_⟩
  · obtain ⟨_, meanings, hterms, hreadings, hexponent⟩ := hsum hfirst
    obtain ⟨_, others, hterms', hreadings', hexponent'⟩ := hsum hsecond
    obtain rfl := (hexpression.unique hterms).2
    obtain rfl := (hother.unique hterms').2
    refine Dimension.ext_exponent fun identifier ↦ ?_
    rw [hexponent, hexponent', sum_summand_eq hreadings, sum_summand_eq hreadings']
    exact (hsame.map _).sum_eq
  · obtain ⟨_, meanings, hterms, hreadings, _⟩ := hsum hresult
    obtain rfl := (hexpression.unique hterms).2
    have hresolve : ∀ factor ∈ meanings.map Meaning.factor,
        ∃ reading, vocabulary.resolve factor.occurrence.symbol = .ok reading := by
      intro factor hfactor
      obtain ⟨meaning, hmeaning, rfl⟩ := List.mem_map.mp hfactor
      exact ⟨meaning.reading, hreadings meaning hmeaning⟩
    obtain ⟨_, ⟨exponent, identifier, hrange, rfl⟩, rfl⟩ :=
      isOverflow_of_isExpression hother (hsame.resolve hresolve) hfailed
    exact ⟨exponent, identifier, hrange, rfl⟩

theorem exponents_of_terms_acceleration :
    ∃ first second, motion.parse (utf8 "m/s²") = .ok first ∧
      motion.parse (utf8 "s⁻²*m") = .ok second ∧ first.dimension = second.dimension := by
  have hcodes : Utf8.decodeAll (utf8 "m/s²") = ([109, 47, 115, 178], none) :=
    @Utf8.decodeAll_encodeAll [109, 47, 115, 178] (by decide)
  have htokens : Token.ofText (utf8 "m/s²") =
      .ok ([⟨.symbol, utf8 "m", 0, false⟩, ⟨.divide, utf8 "/", 1, false⟩,
        ⟨.symbol, utf8 "s", 2, false⟩, ⟨.superscript 2, utf8 "²", 3, false⟩] ++
          [⟨.finish, [], 5, false⟩]) := by
    rw [Token.ofText, hcodes]
    exact Fallible.mapError_eq_ok_iff.mpr (by cbv)
  have hexpression : (utf8 "m/s²").IsExpression none
      [⟨false, ⟨utf8 "m", 0⟩, 1⟩, ⟨true, ⟨utf8 "s", 2⟩, 2⟩] :=
    ⟨_, _, htokens, rfl, .terms (.mk rfl .implicit)
      (@Grammar.Tail.operator _ true _ _ _ _ rfl (.mk rfl (.superscript rfl rfl)) .nil)⟩
  have hcodesOther : Utf8.decodeAll (utf8 "s⁻²*m") = ([115, 0x207B, 178, 42, 109], none) :=
    @Utf8.decodeAll_encodeAll [115, 0x207B, 178, 42, 109] (by decide)
  have htokensOther : Token.ofText (utf8 "s⁻²*m") =
      .ok ([⟨.symbol, utf8 "s", 0, false⟩, ⟨.superscript (-2), utf8 "⁻²", 1, false⟩,
        ⟨.times, utf8 "*", 6, false⟩, ⟨.symbol, utf8 "m", 7, false⟩] ++
          [⟨.finish, [], 8, false⟩]) := by
    rw [Token.ofText, hcodesOther]
    exact Fallible.mapError_eq_ok_iff.mpr (by cbv)
  have hother : (utf8 "s⁻²*m").IsExpression none
      [⟨false, ⟨utf8 "s", 0⟩, -2⟩, ⟨false, ⟨utf8 "m", 7⟩, 1⟩] :=
    ⟨_, _, htokensOther, rfl, .terms (.mk rfl (.superscript rfl rfl))
      (@Grammar.Tail.operator _ false _ _ _ _ rfl (.mk rfl .implicit) .nil)⟩
  have hsame : Factor.SameTerms [⟨false, ⟨utf8 "m", 0⟩, 1⟩, ⟨true, ⟨utf8 "s", 2⟩, 2⟩]
      [⟨false, ⟨utf8 "s", 0⟩, -2⟩, ⟨false, ⟨utf8 "m", 7⟩, 1⟩] :=
    (Factor.SameTerms.invert [_] [] _ ⟨utf8 "s", 2⟩ 2 rfl).trans (.of_perm (.swap _ _ _))
  obtain ⟨first, hfirst⟩ : ∃ first, motion.parse (utf8 "m/s²") = .ok first := by
    obtain ⟨_, _, hread, hfinal, hbody⟩ := hexpression
    exact ⟨_, parse_eq_ok_iff_evaluateFactors.mpr ⟨_, _, _, _, hread, hfinal, hbody, _, rfl, rfl⟩⟩
  obtain ⟨second, hsecond⟩ : ∃ second, motion.parse (utf8 "s⁻²*m") = .ok second := by
    obtain ⟨_, _, hread, hfinal, hbody⟩ := hother
    exact ⟨_, parse_eq_ok_iff_evaluateFactors.mpr ⟨_, _, _, _, hread, hfinal, hbody, _, rfl, rfl⟩⟩
  have hspec := (exponents_of_terms motion (utf8 "m/s²")).2 _ _ _ _ _ hexpression hother hsame
  exact ⟨first, second, hfirst, hsecond, hspec.1 first second hfirst hsecond⟩

end Vocabulary

end Metrology
