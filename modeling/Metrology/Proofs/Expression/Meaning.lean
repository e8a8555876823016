import Metrology.Expression.Evaluation
import Metrology.Proofs.Expression.Grammar
import Metrology.Proofs.Expression.Lexing
import Metrology.Proofs.Quantity.Exact

/-!
# What an expression means

A factor whose symbol has a reading is a term: that reading to the power of its exponent. An
expression stands for the number it starts with, times and over its terms from left to right
(`Meaning.product`), or for its terms alone. Evaluation is this product, refused where an exponent
leaves its range on the way (`evaluateFactors_eq_ok_iff`). `Vocabulary.parse_spec` puts reading,
grammar and evaluation together.
-/

set_option autoImplicit false
set_option relaxedAutoImplicit false

namespace Metrology

/-- A factor together with the reading of its symbol. -/
structure Meaning where
  factor : Factor
  reading : Reading

namespace Meaning

/-- The reading to the power of the exponent. -/
def term (meaning : Meaning) : ExactQuantity :=
  ExactQuantity.power ⟨meaning.reading.scale, meaning.reading.dimension.exponent⟩
    meaning.factor.exponent

/-- What stands left of a term times the term, or over it when its factor is inverted. With nothing
to the left it is the term itself. -/
def apply (left : Option ExactQuantity) (meaning : Meaning) : ExactQuantity :=
  match left with
  | none => meaning.term
  | some left => if meaning.factor.inverted then left.div meaning.term else left.mul meaning.term

/-- The terms applied one after another to what stands left of them. -/
def product (left : Option ExactQuantity) (meanings : List Meaning) : Option ExactQuantity :=
  meanings.foldl (fun left meaning ↦ some (meaning.apply left)) left

/-- The readings are those of the vocabulary. -/
def Interprets (vocabulary : Vocabulary) (meanings : List Meaning) : Prop :=
  ∀ meaning ∈ meanings,
    vocabulary.resolve meaning.factor.occurrence.symbol = .ok meaning.reading

/-- The exponents of every term and of every partial product are in range. -/
structure WithinRange (left : Option ExactQuantity) (meanings : List Meaning) : Prop where
  term : ∀ meaning ∈ meanings, meaning.term.InRange
  partialProduct : ∀ count value, product left (meanings.take count) = some value → value.InRange

theorem withinRange_nil_iff {left : Option ExactQuantity} :
    WithinRange left [] ↔ ∀ value, left = some value → value.InRange := by
  constructor
  · intro hrange value hvalue
    exact hrange.partialProduct 0 value hvalue
  · intro hleft
    refine ⟨by simp, fun count value hvalue ↦ hleft value ?_⟩
    rwa [List.take_nil] at hvalue

theorem withinRange_cons_iff {left : Option ExactQuantity} {meaning : Meaning}
    {rest : List Meaning} : WithinRange left (meaning :: rest) ↔
      (∀ value, left = some value → value.InRange) ∧ meaning.term.InRange ∧
        WithinRange (some (meaning.apply left)) rest := by
  constructor
  · intro hrange
    refine ⟨fun value hvalue ↦ hrange.partialProduct 0 value hvalue, hrange.term _ (by simp),
      fun other hother ↦ hrange.term _ (List.mem_cons_of_mem meaning hother),
      fun count value hvalue ↦ hrange.partialProduct (count + 1) value hvalue⟩
  · rintro ⟨hleft, hterm, hrest⟩
    refine ⟨fun other hother ↦ ?_, fun count value hvalue ↦ ?_⟩
    · rcases List.mem_cons.mp hother with rfl | hmem
      · exact hterm
      · exact hrest.term other hmem
    · cases count with
      | zero => exact hleft value hvalue
      | succ count => exact hrest.partialProduct count value hvalue

theorem product_cons (left : Option ExactQuantity) (meaning : Meaning) (rest : List Meaning) :
    product left (meaning :: rest) = product (some (meaning.apply left)) rest := rfl

end Meaning

/-! ### Evaluation -/

theorem exists_exact_eq_term {meaning : Meaning} (hrange : meaning.term.InRange) :
    ∃ quantity : Quantity, quantity.exact = meaning.term := by
  have hpower := @Quantity.exists_power_iff ⟨meaning.reading.scale, meaning.reading.dimension⟩
    meaning.factor.exponent
  obtain ⟨quantity, hquantity⟩ := hpower.mpr hrange
  exact ⟨quantity, Quantity.power_eq_ok_iff.mp hquantity⟩

/-- A term in range, applied to a quantity, is a quantity again if it is in range. -/
theorem exists_exact_eq_apply {left : Option Quantity} {meaning : Meaning}
    (hterm : meaning.term.InRange) (hrange : (meaning.apply (left.map Quantity.exact)).InRange) :
    ∃ quantity : Quantity, quantity.exact = meaning.apply (left.map Quantity.exact) := by
  obtain ⟨right, hright⟩ := exists_exact_eq_term hterm
  unfold Meaning.apply at hrange ⊢
  rw [← hright] at hrange ⊢
  cases left with
  | none => exact ⟨right, rfl⟩
  | some left =>
    by_cases hinverted : meaning.factor.inverted = true
    · simp only [Option.map_some, if_pos hinverted] at hrange ⊢
      obtain ⟨quantity, hquantity⟩ := Quantity.exists_div_iff.mpr hrange
      exact ⟨quantity, Quantity.div_eq_ok_iff.mp hquantity⟩
    · simp only [Option.map_some, if_neg hinverted] at hrange ⊢
      obtain ⟨quantity, hquantity⟩ := Quantity.exists_mul_iff.mpr hrange
      exact ⟨quantity, Quantity.mul_eq_ok_iff.mp hquantity⟩

/-- A factor is evaluated to its term, applied to what stands left of it. -/
theorem evaluateFactor_eq_ok_iff {vocabulary : Vocabulary} {input : Text}
    {left : Option Quantity} {meaning : Meaning} {result : Quantity}
    (hreading : vocabulary.resolve meaning.factor.occurrence.symbol = .ok meaning.reading) :
    (meaning.factor.quantity vocabulary input).bind (meaning.factor.apply left) = .ok result ↔
      meaning.term.InRange ∧ result.exact = meaning.apply (left.map Quantity.exact) := by
  have hquantity : ∀ quantity,
      meaning.factor.quantity vocabulary input = .ok quantity ↔ quantity.exact = meaning.term := by
    intro quantity
    rw [Factor.quantity, Occurrence.resolve, hreading]
    show (Reading.power meaning.reading meaning.factor.exponent) = .ok quantity ↔ _
    rw [Reading.power, Fallible.mapError_eq_ok_iff, Quantity.power_eq_ok_iff]
    rfl
  have happly : ∀ quantity : Quantity, quantity.exact = meaning.term →
      (meaning.factor.apply left quantity = .ok result ↔
        result.exact = meaning.apply (left.map Quantity.exact)) := by
    intro quantity hterm
    unfold Factor.apply Meaning.apply
    cases left with
    | none =>
      show Except.ok quantity = .ok result ↔ result.exact = meaning.term
      rw [← hterm, Except.ok.injEq]
      exact ⟨fun heq ↦ by rw [heq], fun hexact ↦ Quantity.exact_injective hexact.symm⟩
    | some left =>
      simp only [Option.map_some, Fallible.mapError_eq_ok_iff, ← hterm]
      split
      · exact Quantity.div_eq_ok_iff
      · exact Quantity.mul_eq_ok_iff
  rw [Fallible.bind_eq_ok_iff]
  constructor
  · rintro ⟨quantity, hevaluated, hresult⟩
    have hterm := (hquantity quantity).mp hevaluated
    exact ⟨hterm ▸ quantity.inRange_exact, (happly quantity hterm).mp hresult⟩
  · rintro ⟨hrange, hresult⟩
    obtain ⟨quantity, hterm⟩ := exists_exact_eq_term hrange
    exact ⟨quantity, (hquantity quantity).mpr hterm, (happly quantity hterm).mpr hresult⟩

/-- Factors are evaluated to their product with what stands left of them, where no exponent leaves
its range on the way. -/
theorem evaluateFactors_eq_ok_iff {vocabulary : Vocabulary} {input : Text}
    {left result : Option Quantity} {meanings : List Meaning}
    (hreadings : Meaning.Interprets vocabulary meanings) :
    evaluateFactors vocabulary input left (meanings.map Meaning.factor) = .ok result ↔
      Meaning.WithinRange (left.map Quantity.exact) meanings ∧
        result.map Quantity.exact = Meaning.product (left.map Quantity.exact) meanings := by
  have hleft : ∀ (quantity : Option Quantity) value,
      quantity.map Quantity.exact = some value → value.InRange := by
    intro quantity value hvalue
    obtain ⟨quantity, rfl, rfl⟩ := Option.map_eq_some_iff.mp hvalue
    exact quantity.inRange_exact
  induction meanings generalizing left with
  | nil =>
    have hinjective : Function.Injective (Option.map Quantity.exact) :=
      Option.map_injective fun _ _ ↦ Quantity.exact_injective
    rw [List.map_nil, evaluateFactors, Except.ok.injEq, Meaning.withinRange_nil_iff]
    exact ⟨fun heq ↦ ⟨hleft left, by rw [heq]; rfl⟩, fun h ↦ (hinjective h.2).symm⟩
  | cons meaning rest ih =>
    have hfirst := hreadings meaning (by simp)
    have hrest : Meaning.Interprets vocabulary rest :=
      fun other hother ↦ hreadings other (List.mem_cons_of_mem meaning hother)
    rw [List.map_cons, evaluateFactors, Fallible.bind_eq_ok_iff, Meaning.withinRange_cons_iff,
      Meaning.product_cons]
    constructor
    · rintro ⟨quantity, hquantity, hresult⟩
      obtain ⟨hterm, hexact⟩ := (evaluateFactor_eq_ok_iff hfirst).mp hquantity
      obtain ⟨hrange, hproduct⟩ := (ih hrest).mp hresult
      rw [Option.map_some, hexact] at hrange hproduct
      exact ⟨⟨hleft left, hterm, hrange⟩, hproduct⟩
    · rintro ⟨⟨_, hterm, hrange⟩, hproduct⟩
      obtain ⟨quantity, hexact⟩ := exists_exact_eq_apply hterm (hrange.partialProduct 0 _ rfl)
      refine ⟨quantity, (evaluateFactor_eq_ok_iff hfirst).mpr ⟨hterm, hexact⟩, (ih hrest).mpr ?_⟩
      rw [Option.map_some, hexact]
      exact ⟨hrange, hproduct⟩

/-- A product within range is a quantity. -/
theorem exists_exact_eq_product {left : Option Quantity} {meanings : List Meaning}
    (hrange : Meaning.WithinRange (left.map Quantity.exact) meanings) :
    ∃ result : Option Quantity,
      result.map Quantity.exact = Meaning.product (left.map Quantity.exact) meanings := by
  induction meanings generalizing left with
  | nil => exact ⟨left, rfl⟩
  | cons meaning rest ih =>
    obtain ⟨_, hterm, hrest⟩ := Meaning.withinRange_cons_iff.mp hrange
    obtain ⟨quantity, hexact⟩ := exists_exact_eq_apply hterm (hrest.partialProduct 0 _ rfl)
    rw [Meaning.product_cons, ← hexact]
    rw [← hexact] at hrest
    exact @ih (some quantity) hrest

/-- Where evaluation succeeds every symbol has a reading. -/
theorem resolve_of_evaluateFactors {vocabulary : Vocabulary} {input : Text}
    {left result : Option Quantity} {factors : List Factor}
    (hresult : evaluateFactors vocabulary input left factors = .ok result) :
    ∀ factor ∈ factors, ∃ reading, vocabulary.resolve factor.occurrence.symbol = .ok reading := by
  induction factors generalizing left with
  | nil => simp
  | cons first rest ih =>
    intro factor hfactor
    rw [evaluateFactors, Fallible.bind_eq_ok_iff] at hresult
    obtain ⟨quantity, hquantity, hrest⟩ := hresult
    rcases List.mem_cons.mp hfactor with rfl | hmem
    · obtain ⟨value, hvalue, _⟩ := Fallible.bind_eq_ok_iff.mp hquantity
      obtain ⟨reading, hreading, _⟩ := Fallible.bind_eq_ok_iff.mp hvalue
      exact ⟨reading, Fallible.mapError_eq_ok_iff.mp hreading⟩
    · exact ih hrest factor hmem

/-- Factors whose symbols have readings have meanings. -/
theorem Meaning.exists_interprets {vocabulary : Vocabulary} {factors : List Factor}
    (hresolve : ∀ factor ∈ factors,
      ∃ reading, vocabulary.resolve factor.occurrence.symbol = .ok reading) :
    ∃ meanings, meanings.map Meaning.factor = factors ∧ Interprets vocabulary meanings := by
  induction factors with
  | nil => exact ⟨[], rfl, by simp [Interprets]⟩
  | cons factor rest ih =>
    obtain ⟨reading, hreading⟩ := hresolve factor (by simp)
    obtain ⟨meanings, rfl, hmeanings⟩ :=
      ih fun other hother ↦ hresolve other (List.mem_cons_of_mem factor hother)
    refine ⟨⟨factor, reading⟩ :: meanings, rfl, fun meaning hmeaning ↦ ?_⟩
    rcases List.mem_cons.mp hmeaning with rfl | hmem
    · exact hreading
    · exact hmeanings meaning hmem

theorem Meaning.Interprets.unique {vocabulary : Vocabulary} {meanings others : List Meaning}
    (hmeanings : Interprets vocabulary meanings) (hothers : Interprets vocabulary others)
    (hfactors : meanings.map Meaning.factor = others.map Meaning.factor) : meanings = others := by
  induction meanings generalizing others with
  | nil => exact (List.map_eq_nil_iff.mp hfactors.symm).symm
  | cons meaning rest ih =>
    obtain ⟨other, behind, rfl, hfactor, hrest⟩ := List.map_eq_cons_iff.mp hfactors.symm
    have hreading := hmeanings meaning (by simp)
    rw [← hfactor, hothers other (by simp), Except.ok.injEq] at hreading
    have heq : meaning = other := by
      cases meaning
      cases other
      simp_all
    rw [heq, ih (fun m hm ↦ hmeanings m (List.mem_cons_of_mem meaning hm))
      (fun m hm ↦ hothers m (List.mem_cons_of_mem other hm)) hrest.symm]

/-! ### Reading, grammar and evaluation -/

theorem map_exact_map_number (number : Option Float) :
    (number.map Quantity.number).map Quantity.exact = number.map ExactQuantity.number := by
  cases number <;> rfl

theorem Meaning.product_some (left : ExactQuantity) (meanings : List Meaning) :
    ∃ value, product (some left) meanings = some value := by
  induction meanings generalizing left with
  | nil => exact ⟨left, rfl⟩
  | cons meaning rest ih => exact ih (meaning.apply (some left))

/-- An expression has a number or a factor, so that it stands for something. -/
theorem Grammar.Expression.exists_product {body : List Token} {number : Option Float}
    {meanings : List Meaning}
    (hexpression : Expression body number (meanings.map Meaning.factor)) :
    ∃ value, Meaning.product (number.map .number) meanings = some value := by
  cases number with
  | some value => exact Meaning.product_some _ meanings
  | none =>
    cases meanings with
    | nil => cases hexpression
    | cons meaning rest => exact Meaning.product_some (meaning.apply none) rest

theorem Grammar.Expression.exists_quantity {body : List Token} {number : Option Float}
    {meanings : List Meaning}
    (hexpression : Expression body number (meanings.map Meaning.factor))
    (hrange : Meaning.WithinRange (number.map .number) meanings) :
    ∃ result : Quantity, Meaning.product (number.map .number) meanings = some result.exact := by
  rw [← map_exact_map_number] at hrange
  obtain ⟨product, hproduct⟩ := exists_exact_eq_product hrange
  obtain ⟨value, hvalue⟩ := hexpression.exists_product
  rw [map_exact_map_number, hvalue] at hproduct
  obtain ⟨result, rfl, hexact⟩ := Option.map_eq_some_iff.mp hproduct
  exact ⟨result, by rw [hvalue, hexact]⟩

/-- An expression stands for what its number and its factors come to. -/
theorem Vocabulary.parse_eq_ok_iff_evaluateFactors {vocabulary : Vocabulary} {text : Text}
    {result : Quantity} :
    vocabulary.parse text = .ok result ↔
      ∃ body final number factors, Token.ofText text = .ok (body ++ [final]) ∧
        final.kind = .finish ∧ Grammar.Expression body number factors ∧
        ∃ value, evaluateFactors vocabulary text (number.map .number) factors = .ok value ∧
          value.getD (.number 1.0) = result := by
  rw [parse, Fallible.bind_eq_ok_iff]
  constructor
  · rintro ⟨tokens, htokens, hresult⟩
    rw [Fallible.mapError_eq_ok_iff] at htokens
    obtain ⟨body, final, rfl, hfinal, hbody⟩ := Token.eq_append_finish_of_ofText htokens
    obtain ⟨value, hvalue, hending⟩ := Fallible.bind_eq_ok_iff.mp hresult
    cases houtline : Outline.ofTokens (body ++ [final]) with
    | mk number factors ending =>
      rw [houtline] at hvalue hending
      cases ending with
      | complete =>
        exact ⟨body, final, number, factors, htokens, hfinal,
          (Grammar.ofTokens_eq_complete_iff hfinal hbody).mp houtline, value, hvalue,
          Except.ok.inj hending⟩
      | broken => cases hending
  · rintro ⟨body, final, number, factors, htokens, hfinal, hexpression, value, hvalue, rfl⟩
    refine ⟨body ++ [final], Fallible.mapError_eq_ok_iff.mpr htokens, ?_⟩
    rw [hexpression.ofTokens_append hfinal]
    exact Fallible.bind_eq_ok_iff.mpr ⟨value, hvalue, rfl⟩

/-- A text stands for a quantity when its tokens are an expression, its symbols have readings, all
exponents stay in range, and the quantity is the product of number and terms. -/
theorem Vocabulary.parse_eq_ok_iff {vocabulary : Vocabulary} {text : Text} {result : Quantity} :
    vocabulary.parse text = .ok result ↔
      ∃ body final number meanings, Token.ofText text = .ok (body ++ [final]) ∧
        final.kind = .finish ∧ Grammar.Expression body number (meanings.map Meaning.factor) ∧
        Meaning.Interprets vocabulary meanings ∧
        Meaning.WithinRange (number.map .number) meanings ∧
        Meaning.product (number.map .number) meanings = some result.exact := by
  rw [parse_eq_ok_iff_evaluateFactors]
  constructor
  · rintro ⟨body, final, number, factors, htokens, hfinal, hexpression, value, hvalue, hresult⟩
    obtain ⟨meanings, rfl, hreadings⟩ :=
      Meaning.exists_interprets (resolve_of_evaluateFactors hvalue)
    obtain ⟨product, hproduct⟩ := hexpression.exists_product
    rw [evaluateFactors_eq_ok_iff hreadings, map_exact_map_number, hproduct] at hvalue
    obtain ⟨hrange, hexact⟩ := hvalue
    obtain ⟨quantity, rfl, rfl⟩ := Option.map_eq_some_iff.mp hexact
    cases hresult
    exact ⟨body, final, number, meanings, htokens, hfinal, hexpression, hreadings, hrange, hproduct⟩
  · rintro ⟨body, final, number, meanings, htokens, hfinal, hexpression, hreadings, hrange,
      hproduct⟩
    refine ⟨body, final, number, _, htokens, hfinal, hexpression, some result,
      (evaluateFactors_eq_ok_iff hreadings).mpr ?_, rfl⟩
    rw [map_exact_map_number]
    exact ⟨hrange, hproduct.symm⟩

/-- The symbol tokens of an expression resolve where the symbols of its factors do. -/
theorem Grammar.Expression.forall_symbol_iff {body : List Token} {number : Option Float}
    {factors : List Factor} (hexpression : Expression body number factors)
    (resolves : Text → Prop) :
    (∀ token ∈ body, token.kind = .symbol → resolves token.text) ↔
      ∀ factor ∈ factors, resolves factor.occurrence.symbol := by
  have hoccurrences : ∀ occurrence : Occurrence, occurrence ∈ factors.map Factor.occurrence ↔
      ∃ token ∈ body, token.kind = .symbol ∧ ⟨token.text, token.position⟩ = occurrence := by
    intro occurrence
    rw [← hexpression.filterMap_occurrence?, List.mem_filterMap]
    simp [occurrence?]
  constructor
  · intro htokens factor hfactor
    obtain ⟨token, htoken, hsymbol, heq⟩ :=
      (hoccurrences factor.occurrence).mp (List.mem_map_of_mem hfactor)
    rw [← heq]
    exact htokens token htoken hsymbol
  · intro hfactors token htoken hsymbol
    obtain ⟨factor, hfactor, heq⟩ :=
      List.mem_map.mp ((hoccurrences _).mpr ⟨token, htoken, hsymbol, rfl⟩)
    have hresolves := hfactors factor hfactor
    rwa [heq] at hresolves

/-- A text stands for a quantity exactly when it has tokens that are an expression, every symbol
among them has a reading, and all exponents stay in range. -/
theorem Vocabulary.exists_parse_iff {vocabulary : Vocabulary} {text : Text} :
    (∃ result, vocabulary.parse text = .ok result) ↔
      ∃ body final number factors, Token.ofText text = .ok (body ++ [final]) ∧
        final.kind = .finish ∧ Grammar.Expression body number factors ∧
        (∀ token ∈ body, token.kind = .symbol →
          ∃ reading, vocabulary.resolve token.text = .ok reading) ∧
        ∀ meanings, meanings.map Meaning.factor = factors →
          Meaning.Interprets vocabulary meanings →
          Meaning.WithinRange (number.map .number) meanings := by
  have hresolves : ∀ {body number factors}, Grammar.Expression body number factors →
      ((∀ token ∈ body, token.kind = .symbol →
          ∃ reading, vocabulary.resolve token.text = .ok reading) ↔
        ∀ factor ∈ factors, ∃ reading,
          vocabulary.resolve factor.occurrence.symbol = .ok reading) :=
    fun hexpression ↦ hexpression.forall_symbol_iff fun symbol ↦
      ∃ reading, vocabulary.resolve symbol = .ok reading
  constructor
  · rintro ⟨result, hresult⟩
    obtain ⟨body, final, number, meanings, htokens, hfinal, hexpression, hreadings, hrange, _⟩ :=
      parse_eq_ok_iff.mp hresult
    refine ⟨body, final, number, _, htokens, hfinal, hexpression,
      (hresolves hexpression).mpr fun factor hfactor ↦ ?_, fun others hfactors hothers ↦ ?_⟩
    · obtain ⟨meaning, hmeaning, rfl⟩ := List.mem_map.mp hfactor
      exact ⟨meaning.reading, hreadings meaning hmeaning⟩
    · rwa [hothers.unique hreadings hfactors]
  · rintro ⟨body, final, number, factors, htokens, hfinal, hexpression, hsymbols, hrange⟩
    obtain ⟨meanings, rfl, hreadings⟩ :=
      Meaning.exists_interprets ((hresolves hexpression).mp hsymbols)
    have hwithin := hrange meanings rfl hreadings
    obtain ⟨result, hproduct⟩ := hexpression.exists_quantity hwithin
    exact ⟨result, parse_eq_ok_iff.mpr ⟨body, final, number, meanings, htokens, hfinal, hexpression,
      hreadings, hwithin, hproduct⟩⟩

/-- The text is an expression with a number and factors. -/
def Text.IsExpression (text : Text) (number : Option Float) (factors : List Factor) : Prop :=
  ∃ body final, Token.ofText text = .ok (body ++ [final]) ∧ final.kind = .finish ∧
    Grammar.Expression body number factors

theorem Text.IsExpression.unique {text : Text} {number other : Option Float}
    {factors others : List Factor} (hexpression : text.IsExpression number factors)
    (hother : text.IsExpression other others) : number = other ∧ factors = others := by
  obtain ⟨body, final, htokens, _, hbody⟩ := hexpression
  obtain ⟨_, _, hsame, _, hothers⟩ := hother
  rw [htokens, Except.ok.injEq] at hsame
  obtain rfl := (List.append_inj' hsame rfl).1
  exact hbody.unique hothers

theorem Vocabulary.parse_eq_ok_iff_isExpression {vocabulary : Vocabulary} {text : Text}
    {result : Quantity} :
    vocabulary.parse text = .ok result ↔ ∃ number meanings,
      text.IsExpression number (meanings.map Meaning.factor) ∧
        Meaning.Interprets vocabulary meanings ∧
        Meaning.WithinRange (number.map .number) meanings ∧
        Meaning.product (number.map .number) meanings = some result.exact := by
  rw [parse_eq_ok_iff]
  constructor
  · rintro ⟨body, final, number, meanings, htokens, hfinal, hexpression, hmeanings⟩
    exact ⟨number, meanings, ⟨body, final, htokens, hfinal, hexpression⟩, hmeanings⟩
  · rintro ⟨number, meanings, ⟨body, final, htokens, hfinal, hexpression⟩, hmeanings⟩
    exact ⟨body, final, number, meanings, htokens, hfinal, hexpression, hmeanings⟩

/-- The quantity is the product of number and terms, however these are found. -/
theorem Vocabulary.product_of_parse {vocabulary : Vocabulary} {text : Text} {result : Quantity}
    {body : List Token} {final : Token} {number : Option Float} {meanings : List Meaning}
    (hresult : vocabulary.parse text = .ok result)
    (htokens : Token.ofText text = .ok (body ++ [final]))
    (hexpression : Grammar.Expression body number (meanings.map Meaning.factor))
    (hreadings : Meaning.Interprets vocabulary meanings) :
    Meaning.product (number.map .number) meanings = some result.exact := by
  obtain ⟨_, _, _, others, hsame, _, hother, hothers, _, hproduct⟩ := parse_eq_ok_iff.mp hresult
  rw [htokens, Except.ok.injEq] at hsame
  obtain rfl := (List.append_inj' hsame rfl).1
  obtain ⟨rfl, hfactors⟩ := hexpression.unique hother
  rwa [hreadings.unique hothers hfactors]

theorem Vocabulary.parseAs_eq_ok_iff {vocabulary : Vocabulary} {dimension : Dimension} {text : Text}
    {quantity : Quantity} :
    vocabulary.parseAs dimension text = .ok quantity ↔
      vocabulary.parse text = .ok quantity ∧ quantity.dimension = dimension := by
  rw [parseAs, Fallible.bind_eq_ok_iff]
  constructor
  · rintro ⟨result, hparse, hresult⟩
    split at hresult
    · next hdimension =>
      cases hresult
      exact ⟨hparse, hdimension⟩
    · cases hresult
  · rintro ⟨hparse, hdimension⟩
    exact ⟨quantity, hparse, if_pos hdimension⟩

theorem Vocabulary.parseAs_eq_error_iff {vocabulary : Vocabulary} {dimension : Dimension}
    {text : Text} {error : Error} :
    vocabulary.parseAs dimension text = .error error ↔
      vocabulary.parse text = .error error ∨ ∃ quantity, vocabulary.parse text = .ok quantity ∧
        quantity.dimension ≠ dimension ∧
        error = .dimension (.mismatch (.expression text) dimension quantity.dimension) := by
  rw [parseAs, Fallible.bind_eq_error_iff]
  refine or_congr Iff.rfl (exists_congr fun quantity ↦ and_congr_right fun _ ↦ ?_)
  split
  · next hdimension => simp [hdimension]
  · next hdimension => simp [hdimension, eq_comm]

/-- For every vocabulary and text. The text stands for a quantity exactly when it has tokens, the
tokens before the end of input are an expression, every symbol among them has a reading, and the
exponents of all terms and of all partial products from left to right are in range. The quantity
then is the number times and over the terms, from left to right. -/
theorem Vocabulary.parse_spec (vocabulary : Vocabulary) (text : Text) :
    ((∃ result, vocabulary.parse text = .ok result) ↔
      ∃ body final number factors, Token.ofText text = .ok (body ++ [final]) ∧
        final.kind = .finish ∧ Grammar.Expression body number factors ∧
        (∀ token ∈ body, token.kind = .symbol →
          ∃ reading, vocabulary.resolve token.text = .ok reading) ∧
        ∀ meanings, meanings.map Meaning.factor = factors →
          Meaning.Interprets vocabulary meanings →
          Meaning.WithinRange (number.map .number) meanings) ∧
      ∀ result, vocabulary.parse text = .ok result →
        ∀ body final number meanings, Token.ofText text = .ok (body ++ [final]) →
          Grammar.Expression body number (meanings.map Meaning.factor) →
          Meaning.Interprets vocabulary meanings →
          Meaning.product (number.map .number) meanings = some result.exact := by
  refine ⟨exists_parse_iff, ?_⟩
  intro result hresult body final number meanings htokens hexpression hreadings
  exact product_of_parse hresult htokens hexpression hreadings

end Metrology
