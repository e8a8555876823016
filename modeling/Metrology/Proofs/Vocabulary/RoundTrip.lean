import Metrology.Proofs.Expression.Meaning
import Metrology.Proofs.Expression.Powers
import Metrology.Proofs.Vocabulary.Representation
import Metrology.SI.Kinds

/-!
# Written dimensions read back

A dimension whose base dimensions have coherent units is written as a product of powers of their
symbols. Where the symbols are read as symbols the text reads back as one unit of the dimension: the
partial products are the dimension restricted to some of its base dimensions (`part`), so that none
leaves the range. The least exponent is the exception. It can be written, but is beyond the limit of
an expression.
-/

set_option autoImplicit false
set_option relaxedAutoImplicit false

namespace Metrology

namespace Dimension

/-! ### Partial products -/

/-- One unit of a dimension, restricted to some base dimensions. -/
def part (dimension : Dimension) (identifiers : List Text) : ExactQuantity :=
  ⟨1.0, fun identifier ↦ if identifier ∈ identifiers then dimension.exponent identifier else 0⟩

theorem inRange_part (dimension : Dimension) (identifiers : List Text) :
    (dimension.part identifiers).InRange := by
  intro identifier
  show InExponentRange (if identifier ∈ identifiers then _ else 0)
  split
  · exact dimension.inExponentRange_exponent identifier
  · decide

theorem part_mul_part {dimension : Dimension} {identifiers : List Text} {identifier : Text}
    (hnew : identifier ∉ identifiers) :
    (dimension.part identifiers).mul (dimension.part [identifier]) =
      dimension.part (identifiers ++ [identifier]) := by
  have hone : (1.0 : Float) * 1.0 = 1.0 := by decide
  simp only [ExactQuantity.mul, part, hone, ExactQuantity.mk.injEq, true_and]
  funext other
  by_cases hother : other = identifier
  · subst hother
    simp [hnew]
  · simp [hother]

theorem part_canonicalOrder (dimension : Dimension) :
    dimension.part dimension.canonicalOrder = (⟨1.0, dimension⟩ : Quantity).exact := by
  simp only [part, Quantity.exact, ExactQuantity.mk.injEq, true_and]
  funext identifier
  split
  · rfl
  · next hnot =>
    rw [mem_canonicalOrder] at hnot
    exact (exponent_eq_zero_of_not_mem hnot).symm

/-- The terms of distinct base dimensions, applied to a part of the dimension, make a larger
part. -/
theorem product_part {dimension : Dimension} {done identifiers : List Text}
    {meanings : List Meaning} (hdistinct : (done ++ identifiers).Nodup)
    (hdirect : ∀ meaning ∈ meanings, meaning.factor.inverted = false)
    (hterms : meanings.map Meaning.term = identifiers.map fun identifier ↦
      dimension.part [identifier]) :
    Meaning.WithinRange (some (dimension.part done)) meanings ∧
      Meaning.product (some (dimension.part done)) meanings =
        some (dimension.part (done ++ identifiers)) := by
  induction identifiers generalizing done meanings with
  | nil =>
    obtain rfl := List.map_eq_nil_iff.mp hterms
    rw [List.append_nil]
    refine ⟨Meaning.withinRange_nil_iff.mpr fun value hvalue ↦ ?_, rfl⟩
    cases hvalue
    exact inRange_part dimension done
  | cons identifier rest ih =>
    obtain ⟨meaning, others, rfl, hfirst, hrest⟩ := List.map_eq_cons_iff.mp hterms
    have hterm : meaning.term = dimension.part [identifier] := hfirst
    have hnew : identifier ∉ done := fun hmem ↦
      (List.nodup_append.mp hdistinct).2.2 identifier hmem identifier (by simp) rfl
    have happly : meaning.apply (some (dimension.part done)) =
        dimension.part (done ++ [identifier]) := by
      rw [← part_mul_part hnew, ← hterm, Meaning.apply, hdirect meaning (by simp)]
      rfl
    rw [← List.singleton_append, ← List.append_assoc] at hdistinct
    obtain ⟨hrange, hproduct⟩ := ih hdistinct
      (fun other hother ↦ hdirect other (List.mem_cons_of_mem meaning hother)) hrest
    rw [Meaning.withinRange_cons_iff, Meaning.product_cons, happly, hproduct, List.append_assoc]
    refine ⟨⟨fun value hvalue ↦ ?_, ?_, hrange⟩, rfl⟩
    · cases hvalue
      exact inRange_part dimension done
    · rw [hterm]
      exact inRange_part dimension [identifier]

end Dimension

namespace Vocabulary

/-- Every base dimension of a dimension has a coherent unit, whose symbol is read as one. -/
def CanWrite (vocabulary : Vocabulary) (dimension : Dimension) : Prop :=
  ∀ identifier ∈ dimension.identifiers, ∃ unit,
    vocabulary.coherentUnit identifier = .ok (some unit) ∧ Token.IsSymbol unit.symbol

/-- The name of a base dimension, where writing does not fail. -/
def symbolFor (vocabulary : Vocabulary) (identifier : Text) : Text :=
  (vocabulary.baseName identifier).toOption.getD []

/-- The symbols of a dimension in writing, with their exponents. -/
def powers (vocabulary : Vocabulary) (dimension : Dimension) : List (Text × Int) :=
  dimension.canonicalOrder.map fun identifier ↦
    (vocabulary.symbolFor identifier, dimension.exponent identifier)

theorem baseName_of_coherentUnit {vocabulary : Vocabulary} {identifier : Text} {unit : UnitEntry}
    (hunit : vocabulary.coherentUnit identifier = .ok (some unit)) :
    vocabulary.baseName identifier = .ok unit.symbol := by
  rw [baseName, hunit]
  rfl

theorem symbolFor_of_coherentUnit {vocabulary : Vocabulary} {identifier : Text} {unit : UnitEntry}
    (hunit : vocabulary.coherentUnit identifier = .ok (some unit)) :
    vocabulary.symbolFor identifier = unit.symbol := by
  rw [symbolFor, baseName_of_coherentUnit hunit]
  rfl

/-! ### The text of a dimension -/

theorem intercalate_blank (first : Text) (rest : List Text) :
    (utf8 " ").intercalate (first :: rest) = first ++ rest.flatMap (32 :: ·) := by
  have hblank : utf8 " " = [32] := rfl
  rw [hblank]
  induction rest generalizing first with
  | nil => rw [List.intercalate_singleton, List.flatMap_nil, List.append_nil]
  | cons second rest ih =>
    rw [List.intercalate_cons_cons, ih, List.flatMap_cons]
    simp

/-- A dimension that can be written is written as its powers, with blanks between them. -/
theorem render_eq_ok {vocabulary : Vocabulary} {dimension : Dimension}
    (hwrite : vocabulary.CanWrite dimension) :
    vocabulary.render dimension =
      .ok ((utf8 " ").intercalate ((vocabulary.powers dimension).map Grammar.powerText)) := by
  have hstep : ∀ identifier ∈ dimension.canonicalOrder,
      vocabulary.powerText dimension identifier = .ok (Grammar.powerText
        (vocabulary.symbolFor identifier, dimension.exponent identifier)) := by
    intro identifier hidentifier
    obtain ⟨unit, hunit, _⟩ := hwrite identifier (Dimension.mem_canonicalOrder.mp hidentifier)
    rw [Vocabulary.powerText, baseName_of_coherentUnit hunit, symbolFor_of_coherentUnit hunit]
    rfl
  rw [render, Fallible.mapM_eq_ok_map hstep, powers, List.map_map]
  rfl

/-! ### Its terms -/

/-- A coherent unit is the unit that its symbol stands for. -/
theorem WellFormed.resolve_coherentUnit {vocabulary : Vocabulary}
    (hvocabulary : vocabulary.WellFormed) {identifier : Text} {unit : UnitEntry}
    (hunit : vocabulary.coherentUnit identifier = .ok (some unit)) :
    vocabulary.resolve unit.symbol = .ok (.exact unit) ∧ unit.IsCoherentFor identifier := by
  by_cases hidentifier : identifier = []
  · rw [coherentUnit, if_pos hidentifier] at hunit
    cases hunit
  · rw [hvocabulary.coherentUnit_eq_ok hidentifier, Except.ok.injEq] at hunit
    obtain ⟨symbol, _, hfind⟩ := List.mem_filterMap.mp (List.mem_of_find?_eq_some hunit)
    have hsymbol := (hvocabulary.unit_valid symbol unit hfind).1
    refine ⟨?_, by simpa using List.find?_some hunit⟩
    rw [resolve, hsymbol, hfind]

/-- The power of a coherent unit is the part of the dimension at its base dimension. -/
theorem term_eq_part {dimension : Dimension} {identifier : Text} {unit : UnitEntry}
    {meaning : Meaning} (hcoherent : unit.IsCoherentFor identifier)
    (hreading : meaning.reading = .exact unit)
    (hexponent : meaning.factor.exponent = dimension.exponent identifier) :
    meaning.term = dimension.part [identifier] := by
  rw [Meaning.term, hreading, hexponent, Reading.exact, hcoherent.1]
  simp only [ExactQuantity.power, Real64.power_one_left, Dimension.part, ExactQuantity.mk.injEq,
    true_and]
  funext other
  have hunit : unit.dimension.exponent other = if other = identifier then 1 else 0 := by
    rw [Dimension.exponent, hcoherent.2, List.lookup_cons]
    by_cases hother : other = identifier
    · simp [hother]
    · rw [beq_false_of_ne hother, if_neg hother]
      rfl
  rw [hunit]
  by_cases hother : other = identifier
  · simp [hother]
  · simp [hother]

/-- The terms of the powers of a dimension are its parts. -/
theorem WellFormed.map_term_eq {vocabulary : Vocabulary} (hvocabulary : vocabulary.WellFormed)
    {dimension : Dimension} {identifiers : List Text} {meanings : List Meaning}
    (hunits : ∀ identifier ∈ identifiers, ∃ unit,
      vocabulary.coherentUnit identifier = .ok (some unit))
    (hreadings : Meaning.Interprets vocabulary meanings)
    (hpowers : meanings.map (fun meaning ↦
        (meaning.factor.occurrence.symbol, meaning.factor.exponent)) =
      identifiers.map fun identifier ↦
        (vocabulary.symbolFor identifier, dimension.exponent identifier)) :
    meanings.map Meaning.term = identifiers.map fun identifier ↦ dimension.part [identifier] := by
  induction identifiers generalizing meanings with
  | nil =>
    obtain rfl := List.map_eq_nil_iff.mp hpowers
    rfl
  | cons identifier rest ih =>
    obtain ⟨meaning, others, rfl, hfirst, hothers⟩ := List.map_eq_cons_iff.mp hpowers
    obtain ⟨hsymbol, hexponent⟩ := Prod.mk.inj hfirst
    obtain ⟨unit, hunit⟩ := hunits identifier (by simp)
    obtain ⟨hresolve, hcoherent⟩ := hvocabulary.resolve_coherentUnit hunit
    have hreading := hreadings meaning (by simp)
    rw [hsymbol, symbolFor_of_coherentUnit hunit, hresolve, Except.ok.injEq] at hreading
    rw [List.map_cons, List.map_cons, term_eq_part hcoherent hreading.symm hexponent,
      ih (fun other hother ↦ hunits other (List.mem_cons_of_mem identifier hother))
        (fun other hother ↦ hreadings other (List.mem_cons_of_mem meaning hother)) hothers]

/-- The factors of the powers of a dimension have readings, and their terms are its parts. -/
theorem WellFormed.exists_terms_of_powers {vocabulary : Vocabulary}
    (hvocabulary : vocabulary.WellFormed) {dimension : Dimension}
    (hwrite : vocabulary.CanWrite dimension) {factors : List Factor}
    (hpowers : factors.map (fun factor ↦ (factor.occurrence.symbol, factor.exponent)) =
      vocabulary.powers dimension) :
    ∃ meanings, meanings.map Meaning.factor = factors ∧ Meaning.Interprets vocabulary meanings ∧
      meanings.map Meaning.term =
        dimension.canonicalOrder.map fun identifier ↦ dimension.part [identifier] := by
  have hunits : ∀ identifier ∈ dimension.canonicalOrder, ∃ unit,
      vocabulary.coherentUnit identifier = .ok (some unit) := by
    intro identifier hidentifier
    obtain ⟨unit, hunit, _⟩ := hwrite identifier (Dimension.mem_canonicalOrder.mp hidentifier)
    exact ⟨unit, hunit⟩
  have hresolve : ∀ factor ∈ factors, ∃ reading,
      vocabulary.resolve factor.occurrence.symbol = .ok reading := by
    intro factor hfactor
    have hpower : (factor.occurrence.symbol, factor.exponent) ∈ vocabulary.powers dimension :=
      hpowers ▸ List.mem_map_of_mem hfactor
    obtain ⟨identifier, hidentifier, heq⟩ := List.mem_map.mp hpower
    obtain ⟨unit, hunit⟩ := hunits identifier hidentifier
    rw [← (Prod.mk.inj heq).1, symbolFor_of_coherentUnit hunit]
    exact ⟨_, (hvocabulary.resolve_coherentUnit hunit).1⟩
  obtain ⟨meanings, rfl, hreadings⟩ := Meaning.exists_interprets hresolve
  rw [List.map_map] at hpowers
  exact ⟨meanings, rfl, hreadings, hvocabulary.map_term_eq hunits hreadings hpowers⟩

/-- The terms of the powers of a dimension make one unit of it, and stay in range on the way. -/
theorem WellFormed.exists_meanings_of_powers {vocabulary : Vocabulary}
    (hvocabulary : vocabulary.WellFormed) {dimension : Dimension} (hdimension : dimension ≠ .one)
    (hwrite : vocabulary.CanWrite dimension) {factors : List Factor}
    (hdirect : ∀ factor ∈ factors, factor.inverted = false)
    (hpowers : factors.map (fun factor ↦ (factor.occurrence.symbol, factor.exponent)) =
      vocabulary.powers dimension) :
    ∃ meanings, meanings.map Meaning.factor = factors ∧ Meaning.Interprets vocabulary meanings ∧
      Meaning.WithinRange none meanings ∧
      Meaning.product none meanings = some (⟨1.0, dimension⟩ : Quantity).exact := by
  obtain ⟨meanings, rfl, hreadings, hterms⟩ := hvocabulary.exists_terms_of_powers hwrite hpowers
  have hdistinct := dimension.nodup_canonicalOrder
  rw [← Dimension.part_canonicalOrder]
  cases horder : dimension.canonicalOrder with
  | nil => exact absurd (Dimension.canonicalOrder_eq_nil_iff.mp horder) hdimension
  | cons identifier rest =>
    rw [horder] at hterms hdistinct
    obtain ⟨meaning, others, rfl, hfirst, hrest⟩ := List.map_eq_cons_iff.mp hterms
    have hterm : meaning.term = dimension.part [identifier] := hfirst
    obtain ⟨hrange, hproduct⟩ := @Dimension.product_part dimension [identifier] rest others
      hdistinct (fun other hother ↦ hdirect other.factor (by simp; exact .inr ⟨other, hother, rfl⟩))
      hrest
    refine ⟨meaning :: others, rfl, hreadings, Meaning.withinRange_cons_iff.mpr
      ⟨by simp, ?_, ?_⟩, ?_⟩
    · rw [hterm]
      exact Dimension.inRange_part dimension [identifier]
    · rw [← hterm] at hrange
      exact hrange
    · rw [← hterm] at hproduct
      exact hproduct

/-- The one exponent of a dimension that is beyond the limit of an expression is the least one. -/
theorem forall_powers_iff (vocabulary : Vocabulary) (dimension : Dimension) :
    (∀ power ∈ vocabulary.powers dimension, power.2.natAbs ≤ 2147483647) ↔
      ∀ identifier, dimension.exponent identifier ≠ -2147483648 := by
  constructor
  · intro hpowers identifier hleast
    have hidentifier : identifier ∈ dimension.canonicalOrder := by
      rw [Dimension.mem_canonicalOrder, Dimension.mem_identifiers_iff, hleast]
      decide
    have hlimit : (dimension.exponent identifier).natAbs ≤ 2147483647 :=
      hpowers _ (List.mem_map_of_mem hidentifier)
    omega
  · intro hleast power hpower
    obtain ⟨identifier, _, rfl⟩ := List.mem_map.mp hpower
    have hrange := dimension.inExponentRange_exponent identifier
    have hne := hleast identifier
    show (dimension.exponent identifier).natAbs ≤ 2147483647
    omega

theorem isSymbol_of_mem_powers {vocabulary : Vocabulary} {dimension : Dimension}
    (hwrite : vocabulary.CanWrite dimension) :
    ∀ power ∈ vocabulary.powers dimension, Token.IsSymbol power.1 := by
  intro power hpower
  obtain ⟨identifier, hidentifier, rfl⟩ := List.mem_map.mp hpower
  obtain ⟨unit, hunit, hsymbol⟩ := hwrite identifier (Dimension.mem_canonicalOrder.mp hidentifier)
  rw [symbolFor_of_coherentUnit hunit]
  exact hsymbol

theorem natAbs_lt_of_mem_powers (vocabulary : Vocabulary) (dimension : Dimension) :
    ∀ power ∈ vocabulary.powers dimension, power.2.natAbs < Nat.pow 2 53 := by
  intro power hpower
  obtain ⟨identifier, _, rfl⟩ := List.mem_map.mp hpower
  have hrange := dimension.inExponentRange_exponent identifier
  have hbits : Nat.pow 2 53 = 9007199254740992 := rfl
  show (dimension.exponent identifier).natAbs < Nat.pow 2 53
  omega

/-- A written dimension is read back as one unit of it, unless an exponent is beyond the limit. -/
theorem WellFormed.parse_powers_eq_ok_iff {vocabulary : Vocabulary}
    (hvocabulary : vocabulary.WellFormed) {dimension : Dimension} (hdimension : dimension ≠ .one)
    (hwrite : vocabulary.CanWrite dimension) {result : Quantity} :
    vocabulary.parse ((utf8 " ").intercalate
        ((vocabulary.powers dimension).map Grammar.powerText)) = .ok result ↔
      (∀ identifier, dimension.exponent identifier ≠ -2147483648) ∧
        result = ⟨1.0, dimension⟩ := by
  have hsymbols := isSymbol_of_mem_powers hwrite
  have hsmall := natAbs_lt_of_mem_powers vocabulary dimension
  have hlimit := forall_powers_iff vocabulary dimension
  have hmeanings := fun factors ↦
    @WellFormed.exists_meanings_of_powers _ hvocabulary _ hdimension hwrite factors
  obtain ⟨first, rest, hpowers⟩ : ∃ first rest, vocabulary.powers dimension = first :: rest := by
    refine List.exists_cons_of_ne_nil fun hnil ↦ hdimension ?_
    exact Dimension.canonicalOrder_eq_nil_iff.mp (List.map_eq_nil_iff.mp hnil)
  rw [hpowers] at hsymbols hsmall hlimit hmeanings ⊢
  rw [List.map_cons, intercalate_blank, List.flatMap_map]
  show vocabulary.parse (Grammar.powerText first ++ Grammar.tailText rest) = _ ↔ _
  obtain ⟨written, body, final, htokens, hfinal, hwritten, hbody⟩ :=
    Grammar.exists_ofText_powers hsymbols hsmall
  have hparse : (∀ identifier, dimension.exponent identifier ≠ -2147483648) →
      vocabulary.parse (Grammar.powerText first ++ Grammar.tailText rest) =
        .ok ⟨1.0, dimension⟩ := by
    intro hleast
    obtain ⟨factors, hexpression, hdirect, hfactors⟩ :=
      Grammar.exists_expression_of_powers hwritten hbody (hlimit.mpr hleast)
    obtain ⟨meanings, rfl, hreadings, hwithin, hproduct⟩ := hmeanings factors hdirect hfactors
    exact parse_eq_ok_iff.mpr ⟨_, final, none, meanings, htokens, hfinal, hexpression, hreadings,
      hwithin, hproduct⟩
  constructor
  · intro hresult
    obtain ⟨other, _, _, _, hother, _, hexpression, _⟩ := parse_eq_ok_iff.mp hresult
    rw [htokens, Except.ok.injEq] at hother
    rw [← (List.append_inj' hother rfl).1] at hexpression
    have hleast := hlimit.mp (Grammar.natAbs_le_of_expression hwritten hbody hexpression)
    rw [hparse hleast, Except.ok.injEq] at hresult
    exact ⟨hleast, hresult.symm⟩
  · rintro ⟨hleast, rfl⟩
    exact hparse hleast

/-- In every reachable vocabulary, for every dimension other than that of a plain number: where each
base dimension has a coherent unit whose symbol is read as one, the dimension is written as a text
that stands for a quantity exactly when no exponent is the least one, and that quantity is one unit
of the dimension. -/
theorem Reachable.parse_render {vocabulary : Vocabulary} (hreachable : vocabulary.Reachable)
    {dimension : Dimension} (hdimension : dimension ≠ .one)
    (hunits : ∀ identifier ∈ dimension.identifiers, ∃ unit,
      vocabulary.coherentUnit identifier = .ok (some unit) ∧ Token.IsSymbol unit.symbol) :
    ∃ text, vocabulary.render dimension = .ok text ∧
      ((∃ result, vocabulary.parse text = .ok result) ↔
        ∀ identifier, dimension.exponent identifier ≠ -2147483648) ∧
      ∀ result, vocabulary.parse text = .ok result → result = ⟨1.0, dimension⟩ := by
  have hparse := fun result ↦
    @WellFormed.parse_powers_eq_ok_iff _ hreachable.wellFormed _ hdimension hunits result
  refine ⟨_, render_eq_ok hunits, ⟨?_, ?_⟩, ?_⟩
  · rintro ⟨result, hresult⟩
    exact ((hparse result).mp hresult).1
  · intro hrange
    exact ⟨_, (hparse _).mpr ⟨hrange, rfl⟩⟩
  · intro result hresult
    exact ((hparse result).mp hresult).2

/-- A vocabulary with one coherent unit. -/
def metric : Vocabulary :=
  (empty.declareAll [.unitEntry ⟨utf8 "m", 1.0, SI.Kind.length, utf8 "metre", []⟩]).1

/-- The dimension of a number for each area. -/
def perArea : Dimension where
  entries := [(BaseDimension.length, -2)]

theorem reachable_metric : metric.Reachable :=
  evolves_declareAll _ _

theorem isSymbol_m : Token.IsSymbol (utf8 "m") :=
  Token.isSymbol_iff.mpr
    ⟨[109], @Utf8.decodeAll_encodeAll [109] (by decide), by decide, by decide⟩

theorem parse_render_perArea :
    metric.Reachable ∧ perArea ≠ .one ∧ metric.CanWrite perArea ∧
      ∃ text, metric.render perArea = .ok text ∧ metric.parse text = .ok ⟨1.0, perArea⟩ := by
  have hne : perArea ≠ .one := by decide
  have hwrite : metric.CanWrite perArea := by
    intro identifier hidentifier
    rw [List.mem_singleton.mp hidentifier]
    exact ⟨_, rfl, isSymbol_m⟩
  have hexponents : ∀ identifier, perArea.exponent identifier ≠ -2147483648 := by
    intro identifier
    rw [Dimension.exponent, perArea, List.lookup_cons]
    by_cases hlength : identifier = BaseDimension.length
    · simp [hlength]
    · rw [beq_false_of_ne hlength]
      simp
  obtain ⟨text, htext, hsome, hresult⟩ := Reachable.parse_render reachable_metric hne hwrite
  obtain ⟨result, hparse⟩ := hsome.mpr hexponents
  exact ⟨reachable_metric, hne, hwrite, text, htext, hresult result hparse ▸ hparse⟩

end Vocabulary

end Metrology
