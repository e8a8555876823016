import Metrology.Proofs.Vocabulary.Appending
import Metrology.Proofs.Vocabulary.RoundTrip

/-!
# Written dimensions stay readable

A dimension is written with the first declared coherent unit of each base dimension. Units declared
later come behind it (`Grows.coherentUnit_eq`), so once every base dimension has a coherent unit the
dimension keeps its text whatever is declared (`Grows.render_eq`). The text keeps its meaning as
well: its symbols are those of units, and a unit is read as itself before any prefix is looked for.
-/

set_option autoImplicit false
set_option relaxedAutoImplicit false

namespace Metrology.Vocabulary

namespace Grows

variable {vocabulary later : Vocabulary} (hgrows : Grows vocabulary later)
  (hvocabulary : vocabulary.WellFormed)

include hgrows hvocabulary

/-- The coherent unit of a base dimension is the first one for good. -/
theorem coherentUnit_eq {identifier : Text} {unit : UnitEntry}
    (hunit : vocabulary.coherentUnit identifier = .ok (some unit)) :
    later.coherentUnit identifier = .ok (some unit) := by
  by_cases hidentifier : identifier = []
  · rw [coherentUnit, if_pos hidentifier] at hunit
    cases hunit
  · obtain ⟨declarations, happends⟩ := hgrows.exists_appends
    rw [hvocabulary.coherentUnit_eq_ok hidentifier, Except.ok.injEq] at hunit
    rw [(hgrows.wellFormed hvocabulary).coherentUnit_eq_ok hidentifier,
      happends.unitEntries_eq hvocabulary, List.find?_append, hunit, Option.some_or]

variable {dimension : Dimension} (hwrite : vocabulary.CanWrite dimension)

include hwrite

theorem canWrite : later.CanWrite dimension := by
  intro identifier hidentifier
  obtain ⟨unit, hunit, hsymbol⟩ := hwrite identifier hidentifier
  exact ⟨unit, hgrows.coherentUnit_eq hvocabulary hunit, hsymbol⟩

theorem powers_eq : later.powers dimension = vocabulary.powers dimension := by
  refine List.map_congr_left fun identifier hidentifier ↦ ?_
  obtain ⟨unit, hunit, _⟩ := hwrite identifier (Dimension.mem_canonicalOrder.mp hidentifier)
  rw [symbolFor_of_coherentUnit hunit,
    symbolFor_of_coherentUnit (hgrows.coherentUnit_eq hvocabulary hunit)]

/-- A dimension that can be written keeps its text. -/
theorem render_eq : later.render dimension = vocabulary.render dimension := by
  rw [render_eq_ok (hgrows.canWrite hvocabulary hwrite), render_eq_ok hwrite,
    hgrows.powers_eq hvocabulary hwrite]

end Grows

/-- In every reachable vocabulary, for every dimension other than that of a plain number and without
the least exponent: where each base dimension has a coherent unit whose symbol is read as one, the
dimension is written as a text that it keeps, and that text stands for one unit of the dimension, in
every vocabulary that comes from this one by declarations, seedings and configurations, accepted or
refused. -/
theorem Reachable.render_stays {vocabulary later : Vocabulary} (hreachable : vocabulary.Reachable)
    (hlater : Evolves vocabulary later) {dimension : Dimension} (hdimension : dimension ≠ .one)
    (hunits : ∀ identifier ∈ dimension.identifiers, ∃ unit,
      vocabulary.coherentUnit identifier = .ok (some unit) ∧ Token.IsSymbol unit.symbol)
    (hexponents : ∀ identifier, dimension.exponent identifier ≠ -2147483648) :
    ∃ text, vocabulary.render dimension = .ok text ∧ later.render dimension = .ok text ∧
      later.parse text = .ok ⟨1.0, dimension⟩ := by
  have hgrows := hlater.grows
  have hvocabulary := hreachable.wellFormed
  have htext := render_eq_ok hunits
  have hkept := hgrows.render_eq hvocabulary hunits
  refine ⟨_, htext, hkept.trans htext, ?_⟩
  rw [← hgrows.powers_eq hvocabulary hunits]
  exact ((hgrows.wellFormed hvocabulary).parse_powers_eq_ok_iff hdimension
    (hgrows.canWrite hvocabulary hunits)).mpr ⟨hexponents, rfl⟩

/-- The candela on its own. -/
def candle : Vocabulary :=
  (empty.declareAll
    [.unitEntry ⟨utf8 "cd", 1.0, SI.Kind.luminousIntensity, utf8 "candela", []⟩]).1

/-- Declarations that make the symbol of the candela read as the hundredth of a day, offer another
unit of luminous intensity, and claim the symbol for something else; the last one is refused. -/
def rivals : List Declaration :=
  [.prefixEntry ⟨utf8 "c", 0.01, utf8 "centi"⟩,
    .unitEntry ⟨utf8 "d", 86400.0, SI.Kind.time, utf8 "day", []⟩,
    .unitEntry ⟨utf8 "NC", 1.0, SI.Kind.luminousIntensity, utf8 "new candle", []⟩,
    .unitEntry ⟨utf8 "cd", 2.0, SI.Kind.time, utf8 "cord", []⟩]

theorem isSymbol_cd : Token.IsSymbol (utf8 "cd") :=
  Token.isSymbol_iff.mpr
    ⟨[99, 100], @Utf8.decodeAll_encodeAll [99, 100] (by decide), by decide, by decide⟩

theorem render_stays_candle :
    candle.Reachable ∧ Evolves candle (candle.declareAll rivals).1 ∧
      SI.Kind.luminousIntensity ≠ .one ∧ candle.CanWrite SI.Kind.luminousIntensity ∧
      ∃ text, candle.render SI.Kind.luminousIntensity = .ok text ∧
        ((candle.declareAll rivals).1).render SI.Kind.luminousIntensity = .ok text ∧
        ((candle.declareAll rivals).1).parse text = .ok ⟨1.0, SI.Kind.luminousIntensity⟩ := by
  have hreachable : candle.Reachable := evolves_declareAll _ _
  have hlater : Evolves candle (candle.declareAll rivals).1 := evolves_declareAll _ _
  have hne : SI.Kind.luminousIntensity ≠ .one := by decide
  have hwrite : candle.CanWrite SI.Kind.luminousIntensity := by
    intro identifier hidentifier
    rw [List.mem_singleton.mp hidentifier]
    exact ⟨_, rfl, isSymbol_cd⟩
  have hexponents : ∀ identifier,
      SI.Kind.luminousIntensity.exponent identifier ≠ -2147483648 := by
    intro identifier hleast
    have hentry : (identifier, -2147483648) ∈ SI.Kind.luminousIntensity.entries :=
      Dimension.mem_entries_iff.mpr ⟨hleast, by simp⟩
    cases List.mem_singleton.mp hentry
  exact ⟨hreachable, hlater, hne, hwrite, hreachable.render_stays hlater hne hwrite hexponents⟩

end Metrology.Vocabulary
