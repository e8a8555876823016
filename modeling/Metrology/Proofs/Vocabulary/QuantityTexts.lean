import Metrology.Proofs.Expression.Numbers
import Metrology.Proofs.Numeric.Ranges
import Metrology.Proofs.Vocabulary.RoundTrip
import Metrology.Quantity.Text

/-!
# Written quantities read back

A quantity is written as its magnitude and the powers of its dimension. The magnitude is a numeral
and the powers are a tail of terms, so that the text is an expression of the same dimension: the
exponents of partial products do not depend on the number in front (`Meaning.product_congr`). Only
the numeral may be refused. It has six digits, so that a double that is close to the least normal
one, or below it, is written as a number that is no double and too small for the nearest one.
-/

set_option autoImplicit false
set_option relaxedAutoImplicit false

namespace Metrology

/-! ### Exponents of products -/

namespace Meaning

theorem exponent_apply_congr {left other : ExactQuantity} (hsame : left.exponent = other.exponent)
    (meaning : Meaning) :
    (meaning.apply (some left)).exponent = (meaning.apply (some other)).exponent := by
  unfold apply
  dsimp only
  split
  · show (fun identifier ↦ left.exponent identifier - _) = fun identifier ↦ _
    rw [hsame]
    rfl
  · show (fun identifier ↦ left.exponent identifier + _) = fun identifier ↦ _
    rw [hsame]
    rfl

theorem inRange_congr {first second : ExactQuantity} (hsame : first.exponent = second.exponent)
    (hrange : first.InRange) : second.InRange := by
  intro identifier
  rw [← hsame]
  exact hrange identifier

/-- The exponents of a product depend on those of what it starts with only. -/
theorem product_congr {left other value : ExactQuantity} {meanings : List Meaning}
    (hsame : left.exponent = other.exponent) (hrange : WithinRange (some left) meanings)
    (hproduct : product (some left) meanings = some value) :
    WithinRange (some other) meanings ∧
      ∃ result, product (some other) meanings = some result ∧
        result.exponent = value.exponent := by
  induction meanings generalizing left other with
  | nil =>
    cases hproduct
    refine ⟨withinRange_nil_iff.mpr fun value hvalue ↦ ?_, other, rfl, hsame.symm⟩
    cases hvalue
    exact inRange_congr hsame (withinRange_nil_iff.mp hrange _ rfl)
  | cons meaning rest ih =>
    obtain ⟨hleft, hterm, hrest⟩ := withinRange_cons_iff.mp hrange
    obtain ⟨hwithin, hresult⟩ := ih (exponent_apply_congr hsame meaning) hrest hproduct
    refine ⟨withinRange_cons_iff.mpr ⟨fun value hvalue ↦ ?_, hterm, hwithin⟩, hresult⟩
    cases hvalue
    exact inRange_congr hsame (hleft _ rfl)

end Meaning

theorem Token.IsSymbol.ne_nil {symbol : Text} (hsymbol : IsSymbol symbol) : symbol ≠ [] := by
  obtain ⟨codes, hcodes, hsome, _⟩ := isSymbol_iff.mp hsymbol
  rintro rfl
  rw [Utf8.decodeAll, Prod.mk.injEq] at hcodes
  exact hsome hcodes.1.symm

namespace Vocabulary

variable {vocabulary : Vocabulary} {quantity : Quantity}

/-! ### The text of a quantity -/

/-- A quantity whose dimension can be written is written as its magnitude and its powers. -/
theorem toText_eq_ok (hwrite : vocabulary.CanWrite quantity.dimension) :
    quantity.toText vocabulary = .ok (Display.general quantity.magnitude ++
      Grammar.tailText (vocabulary.powers quantity.dimension)) := by
  rw [Quantity.toText, render_eq_ok hwrite]
  show Except.ok _ = _
  rw [Except.ok.injEq, Quantity.withUnits]
  cases hpowers : vocabulary.powers quantity.dimension with
  | nil => exact (if_pos rfl).trans (List.append_nil _).symm
  | cons first rest =>
    have hsymbol := isSymbol_of_mem_powers hwrite first (hpowers ▸ List.mem_cons_self)
    have hsome : Grammar.powerText first ++ (rest.map Grammar.powerText).flatMap (32 :: ·) ≠ [] :=
      fun hnil ↦ hsymbol.ne_nil
        (List.append_eq_nil_iff.mp (List.append_eq_nil_iff.mp hnil).1).1
    rw [List.map_cons, intercalate_blank, if_neg hsome, List.append_assoc, List.flatMap_map,
      Grammar.tailText, List.flatMap_cons]
    rfl

theorem parse_eq_error_of_ofText {text : Text} {error : ExpressionError}
    (hrefused : Token.ofText text = .error error) :
    vocabulary.parse text = .error (.expression error) := by
  rw [parse, hrefused]
  rfl

/-- A number in front of the powers of a dimension is a quantity of that dimension. -/
theorem WellFormed.exists_parse_of_powers (hvocabulary : vocabulary.WellFormed)
    {dimension : Dimension} (hwrite : vocabulary.CanWrite dimension) {text : Text}
    {number final : Token} {value : Float} {integer : Option Int} {body : List Token}
    (htokens : Token.ofText text = .ok (number :: (body ++ [final])))
    (hnumber : number.kind = .number value integer) (hfinal : final.kind = .finish)
    (hbody : Grammar.WritesTail (vocabulary.powers dimension) body)
    (hleast : ∀ identifier, dimension.exponent identifier ≠ -2147483648) :
    ∃ result, vocabulary.parse text = .ok result ∧ result.dimension = dimension := by
  obtain ⟨factors, htail, hdirect, hfactors⟩ :=
    hbody.exists_tail ((forall_powers_iff vocabulary dimension).mpr hleast)
  obtain ⟨meanings, rfl, hreadings, hterms⟩ := hvocabulary.exists_terms_of_powers hwrite hfactors
  obtain ⟨hrange, hproduct⟩ := @Dimension.product_part dimension [] dimension.canonicalOrder meanings
    dimension.nodup_canonicalOrder
    (fun meaning hmeaning ↦ hdirect meaning.factor (List.mem_map_of_mem hmeaning)) hterms
  have hnothing : (dimension.part []).exponent = (ExactQuantity.number value).exponent := by
    funext identifier
    show (if identifier ∈ ([] : List Text) then dimension.exponent identifier else 0) = 0
    exact if_neg List.not_mem_nil
  obtain ⟨hwithin, product, hresult, hexponent⟩ :=
    Meaning.product_congr hnothing hrange hproduct
  have hexpression := htail.expression_cons hnumber
  obtain ⟨result, hexact⟩ := hexpression.exists_quantity hwithin
  refine ⟨result, parse_eq_ok_iff.mpr ⟨number :: body, final, some value, meanings, htokens, hfinal,
    hexpression, hreadings, hwithin, hexact⟩, Dimension.ext_exponent fun identifier ↦ ?_⟩
  have hsame : product = result.exact := Option.some.inj (hresult.symm.trans hexact)
  rw [hsame, List.nil_append, Dimension.part_canonicalOrder] at hexponent
  exact congrFun hexponent identifier

/-- In every reachable vocabulary, for every quantity of a finite magnitude. Where each base
dimension has a coherent unit whose symbol is read as one, and no exponent is the least one, the
quantity is written as a text. The text stands for a quantity exactly when the magnitude is zero or
large enough, and that quantity has the same dimension. Otherwise the text is refused for its number,
which is too small. -/
theorem Reachable.parse_toText {vocabulary : Vocabulary} (hreachable : vocabulary.Reachable)
    {quantity : Quantity} (hfinite : quantity.magnitude.isFinite)
    (hunits : ∀ identifier ∈ quantity.dimension.identifiers, ∃ unit,
      vocabulary.coherentUnit identifier = .ok (some unit) ∧ Token.IsSymbol unit.symbol)
    (hleast : ∀ identifier, quantity.dimension.exponent identifier ≠ -2147483648) :
    ∃ text, quantity.toText vocabulary = .ok text ∧
      ((∃ result, vocabulary.parse text = .ok result) ↔
        Real64.value quantity.magnitude = 0 ∨
          Display.leastReadable ≤ |Real64.value quantity.magnitude|) ∧
      (∀ result, vocabulary.parse text = .ok result → result.dimension = quantity.dimension) ∧
      ∀ error, vocabulary.parse text = .error error → error = .expression
        ⟨.lexical (.numberOutOfRange (Display.general quantity.magnitude)), text, 0⟩ := by
  have hwrite : vocabulary.CanWrite quantity.dimension := hunits
  obtain ⟨numeral, _, hwrites, hrange⟩ := Display.exists_general hfinite
  have hpowers := Grammar.readsAs_tailText (isSymbol_of_mem_powers hwrite)
    (natAbs_lt_of_mem_powers vocabulary quantity.dimension)
  have hblank := Grammar.blank_of_mem_head?_tailText (vocabulary.powers quantity.dimension)
  refine ⟨_, toText_eq_ok hwrite, ?_⟩
  rw [← hrange, ← hwrites.text_eq]
  by_cases hinRange : numeral.convert.inRange = true
  · obtain ⟨_, htokens, number, _, rfl, hnumber, body, final, rfl, hfinal, hbody⟩ :=
      (Lexer.ReadsAs.numeral_append hwrites.isWritten hinRange hblank hpowers).exists_ofText
    obtain ⟨result, hparse, hdimension⟩ := hreachable.wellFormed.exists_parse_of_powers hwrite
      htokens hnumber hfinal hbody hleast
    rw [hparse]
    refine ⟨iff_of_true ⟨result, rfl⟩ hinRange, ?_, ?_⟩
    · rintro _ ⟨⟩
      exact hdimension
    · rintro _ ⟨⟩
  · obtain ⟨codes, hcodes, _⟩ := hpowers
    have hrefused := Token.ofText_eq_error_of_numeral hwrites.isWritten hinRange hcodes hblank
    rw [parse_eq_error_of_ofText hrefused]
    refine ⟨iff_of_false ?_ hinRange, ?_, ?_⟩
    · rintro ⟨_, ⟨⟩⟩
    · rintro _ ⟨⟩
    · rintro _ ⟨⟩
      rfl

theorem parse_toText_perArea :
    metric.Reachable ∧ (2.5 : Float).isFinite ∧ metric.CanWrite perArea ∧
      (⟨2.5, perArea⟩ : Quantity).toText metric = .ok (utf8 "2.5 m^-2") ∧
      ∃ result, metric.parse (utf8 "2.5 m^-2") = .ok result ∧ result.dimension = perArea := by
  have hfinite : (2.5 : Float).isFinite := by decide +kernel
  have hwrite : metric.CanWrite perArea := by
    intro identifier hidentifier
    rw [List.mem_singleton.mp hidentifier]
    exact ⟨_, rfl, isSymbol_m⟩
  have hexponents : ∀ identifier, perArea.exponent identifier ≠ -2147483648 := by
    intro identifier hleast
    have hmem : identifier ∈ perArea.identifiers :=
      Dimension.mem_identifiers_iff.mpr (hleast ▸ by decide)
    rw [List.mem_singleton.mp hmem] at hleast
    exact absurd hleast (by decide)
  have hwritten : (⟨2.5, perArea⟩ : Quantity).toText metric = .ok (utf8 "2.5 m^-2") := by
    decide +kernel
  have hlarge : Display.leastReadable ≤ |Real64.value 2.5| := by decide +kernel
  obtain ⟨text, htext, hread, hdimension, _⟩ :=
    @Reachable.parse_toText metric reachable_metric ⟨2.5, perArea⟩ hfinite hwrite hexponents
  obtain rfl : utf8 "2.5 m^-2" = text := Except.ok.inj (hwritten.symm.trans htext)
  obtain ⟨result, hparse⟩ := hread.mpr (.inr hlarge)
  exact ⟨reachable_metric, hfinite, hwrite, hwritten, result, hparse, hdimension result hparse⟩

/-- The least normal double. -/
def leastNormal : Float := Float.ofBits 4503599627370496

/-- A finite magnitude may be written as a number that is refused. -/
theorem parse_leastNormal :
    metric.Reachable ∧ leastNormal.isFinite ∧
      (Quantity.number leastNormal).toText metric = .ok (utf8 "2.22507e-308") ∧
      metric.parse (utf8 "2.22507e-308") = .error (.expression
        ⟨.lexical (.numberOutOfRange (utf8 "2.22507e-308")), utf8 "2.22507e-308", 0⟩) := by
  refine ⟨reachable_metric, by decide +kernel, by decide +kernel, by decide +kernel⟩

end Vocabulary

end Metrology
