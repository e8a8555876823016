import Metrology.Proofs.Vocabulary.Appending
import Metrology.Proofs.Vocabulary.HiddenReadings

/-!
# The order of declarations

The same declarations in another order fill a vocabulary with the same entries
(`Appends.agrees_of_perm`), though its lists of symbols follow the order. What an expression means
is found by looking up symbols, so vocabularies that agree on these give the same readings to all
symbols (`Agrees.resolve_eq`) and the same quantity or error to all texts (`Agrees.parse_eq`). They
also hide the same readings: both build or none does, and only the error of building depends on the
order.
-/

set_option autoImplicit false
set_option relaxedAutoImplicit false

namespace Metrology

/-! ### Expressions depend on the readings of symbols alone -/

section Readings

variable {first second : Vocabulary}
  (hsame : ∀ symbol, first.resolve symbol = second.resolve symbol)

include hsame

theorem Occurrence.resolve_congr (input : Text) (occurrence : Occurrence) :
    occurrence.resolve first input = occurrence.resolve second input := by
  rw [Occurrence.resolve, Occurrence.resolve, hsame]

theorem Factor.quantity_congr (input : Text) (factor : Factor) :
    factor.quantity first input = factor.quantity second input := by
  rw [Factor.quantity, Factor.quantity, Occurrence.resolve_congr hsame]

theorem evaluateFactors_congr (input : Text) (left : Option Quantity) (factors : List Factor) :
    evaluateFactors first input left factors = evaluateFactors second input left factors := by
  induction factors generalizing left with
  | nil => rfl
  | cons factor rest ih => simp only [evaluateFactors, Factor.quantity_congr hsame, ih]

theorem Ending.error_congr (input : Text) (unfinished : Option Occurrence)
    (refusal : GrammarRefusal) :
    Ending.error first input unfinished refusal = Ending.error second input unfinished refusal := by
  cases unfinished with
  | none => rfl
  | some occurrence => simp only [Ending.error, Occurrence.resolve_congr hsame]

/-- Vocabularies with the same readings give a text the same quantity or the same error. -/
theorem Vocabulary.parse_congr (text : Text) : first.parse text = second.parse text := by
  simp only [parse, Outline.evaluate, evaluateFactors_congr hsame, Ending.error_congr hsame]

end Readings

namespace Vocabulary

open Declaration

/-! ### Vocabularies with the same entries -/

/-- Two vocabularies cannot be told apart by looking up symbols. -/
structure Agrees (first second : Vocabulary) : Prop where
  findUnit_eq : ∀ symbol, first.findUnit symbol = second.findUnit symbol
  findPrefix_eq : ∀ symbol, first.findPrefix symbol = second.findPrefix symbol
  longestPrefix_eq : first.longestPrefix = second.longestPrefix
  acknowledges_iff : ∀ symbol, first.Acknowledges symbol ↔ second.Acknowledges symbol

namespace Agrees

variable {first second : Vocabulary} (hagrees : first.Agrees second)

include hagrees

theorem symm : second.Agrees first where
  findUnit_eq symbol := (hagrees.findUnit_eq symbol).symm
  findPrefix_eq symbol := (hagrees.findPrefix_eq symbol).symm
  longestPrefix_eq := hagrees.longestPrefix_eq.symm
  acknowledges_iff symbol := (hagrees.acknowledges_iff symbol).symm

theorem decompositions_eq (symbol : Text) :
    first.decompositions symbol = second.decompositions symbol := by
  have hat : first.decompositionAt symbol = second.decompositionAt symbol := by
    funext length
    rw [decompositionAt, decompositionAt, hagrees.findPrefix_eq, hagrees.findUnit_eq]
  rw [decompositions, decompositions, splitLengths, splitLengths, hat, hagrees.longestPrefix_eq]

theorem resolve_eq (symbol : Text) : first.resolve symbol = second.resolve symbol := by
  rw [resolve, resolve, hagrees.findUnit_eq, hagrees.decompositions_eq]

theorem parse_eq (text : Text) : first.parse text = second.parse text :=
  parse_congr hagrees.resolve_eq text

theorem splits_of {symbol : Text} {start : PrefixEntry} {rest : UnitEntry}
    (hsplits : first.Splits symbol start rest) : second.Splits symbol start rest where
  findPrefix_eq := (hagrees.findPrefix_eq _).symm.trans hsplits.findPrefix_eq
  findUnit_eq := (hagrees.findUnit_eq _).symm.trans hsplits.findUnit_eq
  eq_append := hsplits.eq_append

theorem hidesReading_of {symbol : Text} (hhides : first.HidesReading symbol) :
    second.HidesReading symbol := by
  obtain ⟨entry, start, rest, hfind, hacknowledged, hsplits, hconflict⟩ := hhides
  exact ⟨entry, start, rest, (hagrees.findUnit_eq symbol).symm.trans hfind,
    fun hother ↦ hacknowledged ((hagrees.acknowledges_iff symbol).mpr hother),
    hagrees.splits_of hsplits, hconflict⟩

/-- Both vocabularies build as they are, or neither builds, each for an ambiguous symbol. -/
theorem build_cases (hfirst : first.WellFormed) (hsecond : second.WellFormed) :
    first.build = .ok first ∧ second.build = .ok second ∨
      ∃ symbol candidates other otherCandidates,
        first.build = .error ⟨.symbol (.ambiguous symbol candidates), [], 0⟩ ∧
          second.build = .error ⟨.symbol (.ambiguous other otherCandidates), [], 0⟩ := by
  cases hbuild : first.build with
  | ok built =>
    obtain ⟨hnone, rfl⟩ := hfirst.build_eq_ok_iff.mp hbuild
    refine .inl ⟨rfl, hsecond.build_eq_ok_iff.mpr ⟨fun symbol hhides ↦ ?_, rfl⟩⟩
    exact hnone symbol (hagrees.symm.hidesReading_of hhides)
  | error error =>
    obtain ⟨_, symbol, _, _, _, _, _, _, _, rfl⟩ := hfirst.build_eq_error_iff.mp hbuild
    cases hother : second.build with
    | ok built =>
      have hnone := (hsecond.build_eq_ok_iff.mp hother).1
      have hbuilt := hfirst.build_eq_ok_iff.mpr
        ⟨fun symbol hhides ↦ hnone symbol (hagrees.hidesReading_of hhides), rfl⟩
      rw [hbuild] at hbuilt
      cases hbuilt
    | error otherError =>
      obtain ⟨_, other, _, _, _, _, _, _, _, rfl⟩ := hsecond.build_eq_error_iff.mp hother
      exact .inr ⟨symbol, _, other, _, rfl, rfl⟩

end Agrees

/-! ### Declarations in another order -/

/-- The order in which entries were declared cannot be told by looking up symbols. -/
theorem Appends.agrees_of_perm {vocabulary firstResult secondResult : Vocabulary}
    {first second : List Declaration} (hfirst : Appends vocabulary first firstResult)
    (hsecond : Appends vocabulary second secondResult) (hperm : first.Perm second) :
    firstResult.Agrees secondResult := by
  have hunits : (unitsOf first).Perm (unitsOf second) := hperm.filterMap _
  have hprefixes : (prefixesOf first).Perm (prefixesOf second) := hperm.filterMap _
  refine ⟨fun symbol ↦ Option.ext fun entry ↦ ?_, fun symbol ↦ Option.ext fun entry ↦ ?_, ?_,
    fun symbol ↦ ?_⟩
  · rw [hfirst.findUnit_iff, hsecond.findUnit_iff, hunits.mem_iff]
  · rw [hfirst.findPrefix_iff, hsecond.findPrefix_iff, hprefixes.mem_iff]
  · rw [hfirst.longestPrefix_eq, hsecond.longestPrefix_eq]
    exact (hprefixes.map _).foldl_eq' (fun _ _ _ _ _ ↦ Nat.max_right_comm _ _ _) _
  · rw [hfirst.acknowledges_iff, hsecond.acknowledges_iff, hperm.mem_iff]

theorem Admits.perm {vocabulary : Vocabulary} {first second : List Declaration}
    (hadmits : vocabulary.Admits first) (hperm : first.Perm second) :
    vocabulary.Admits second := by
  have hunits : (unitsOf first).Perm (unitsOf second) := hperm.filterMap _
  have hprefixes : (prefixesOf first).Perm (prefixesOf second) := hperm.filterMap _
  exact ⟨fun declaration hmem ↦ hadmits.valid declaration (hperm.mem_iff.mpr hmem),
    (hunits.map _).nodup_iff.mp hadmits.nodup_units,
    (hprefixes.map _).nodup_iff.mp hadmits.nodup_prefixes,
    fun entry hmem ↦ hadmits.unit_free entry (hunits.mem_iff.mpr hmem),
    fun entry hmem ↦ hadmits.prefix_free entry (hprefixes.mem_iff.mpr hmem)⟩

/-- The vocabulary without symbols admits all valid declarations whose units have different symbols
and whose prefixes have different symbols. -/
theorem admits_empty_iff {declarations : List Declaration} :
    empty.Admits declarations ↔ (∀ declaration ∈ declarations, declaration.IsValid) ∧
      ((unitsOf declarations).map UnitEntry.symbol).Nodup ∧
      ((prefixesOf declarations).map PrefixEntry.symbol).Nodup :=
  ⟨fun hadmits ↦ ⟨hadmits.valid, hadmits.nodup_units, hadmits.nodup_prefixes⟩,
    fun ⟨hvalid, hunits, hprefixes⟩ ↦ ⟨hvalid, hunits, hprefixes, fun _ _ ↦ rfl, fun _ _ ↦ rfl⟩⟩

/-- Declarations that a reachable vocabulary admits are all accepted in any two orders. Both results
build, or neither does and each is refused for an ambiguous symbol. When they build, every symbol
has the same unit, prefix, decompositions and reading in both, the longest prefix is the same, and
every text has the same quantity or the same error. -/
theorem Reachable.permutation_spec {vocabulary : Vocabulary} (hreachable : vocabulary.Reachable)
    {first second : List Declaration} (hadmits : vocabulary.Admits first)
    (hperm : first.Perm second) :
    ∃ firstResult secondResult, vocabulary.declareAll first = (firstResult, none) ∧
      vocabulary.declareAll second = (secondResult, none) ∧
      ((∃ firstBuilt secondBuilt, firstResult.build = .ok firstBuilt ∧
          secondResult.build = .ok secondBuilt ∧
          (∀ symbol, firstBuilt.findUnit symbol = secondBuilt.findUnit symbol) ∧
          (∀ symbol, firstBuilt.findPrefix symbol = secondBuilt.findPrefix symbol) ∧
          firstBuilt.longestPrefix = secondBuilt.longestPrefix ∧
          (∀ symbol, firstBuilt.decompositions symbol = secondBuilt.decompositions symbol) ∧
          (∀ symbol, firstBuilt.resolve symbol = secondBuilt.resolve symbol) ∧
          ∀ text, firstBuilt.parse text = secondBuilt.parse text) ∨
        ∃ symbol candidates other otherCandidates,
          firstResult.build = .error ⟨.symbol (.ambiguous symbol candidates), [], 0⟩ ∧
            secondResult.build = .error ⟨.symbol (.ambiguous other otherCandidates), [], 0⟩) := by
  have hvocabulary := hreachable.wellFormed
  obtain ⟨firstResult, hfirst⟩ := hadmits.exists_declareAll
  obtain ⟨secondResult, hsecond⟩ := (hadmits.perm hperm).exists_declareAll
  have hagrees :=
    (appends_of_declareAll hfirst).agrees_of_perm (appends_of_declareAll hsecond) hperm
  refine ⟨firstResult, secondResult, hfirst, hsecond, ?_⟩
  rcases hagrees.build_cases (hvocabulary.declareAll hfirst) (hvocabulary.declareAll hsecond) with
    ⟨hbuilt, hotherBuilt⟩ | hrefused
  · exact .inl ⟨firstResult, secondResult, hbuilt, hotherBuilt, hagrees.findUnit_eq,
      hagrees.findPrefix_eq, hagrees.longestPrefix_eq, hagrees.decompositions_eq,
      hagrees.resolve_eq, hagrees.parse_eq⟩
  · exact .inr hrefused

/-- The declarations of the candela, acknowledged to hide the hundredth of a day. -/
def acknowledgedCandela : List Declaration :=
  [.prefixEntry ⟨utf8 "c", 0.01, utf8 "centi"⟩,
    .unitEntry ⟨utf8 "d", 86400.0, SI.Kind.time, utf8 "day", []⟩,
    .unitEntry ⟨utf8 "cd", 1.0, SI.Kind.luminousIntensity, utf8 "candela", []⟩,
    .acknowledgement (utf8 "cd")]

theorem permutation_spec_candela :
    empty.Reachable ∧ empty.Admits acknowledgedCandela ∧
      acknowledgedCandela.Perm acknowledgedCandela.reverse ∧
      ∃ firstResult secondResult firstBuilt secondBuilt,
        empty.declareAll acknowledgedCandela = (firstResult, none) ∧
        empty.declareAll acknowledgedCandela.reverse = (secondResult, none) ∧
        firstResult.build = .ok firstBuilt ∧ secondResult.build = .ok secondBuilt ∧
        ∀ text, firstBuilt.parse text = secondBuilt.parse text := by
  have hreachable : empty.Reachable := .refl _
  have hadmits : empty.Admits acknowledgedCandela :=
    admits_empty_iff.mpr ⟨by decide, by decide, by decide⟩
  have hperm : acknowledgedCandela.Perm acknowledgedCandela.reverse :=
    (List.reverse_perm _).symm
  obtain ⟨firstResult, secondResult, hfirst, hsecond, hbuild⟩ :=
    hreachable.permutation_spec hadmits hperm
  rcases hbuild with ⟨_, _, hbuilt, hother, _, _, _, _, _, hparse⟩ | ⟨_, _, _, _, hrefused, _⟩
  · exact ⟨hreachable, hadmits, hperm, _, _, _, _, hfirst, hsecond, hbuilt, hother, hparse⟩
  · obtain rfl : (empty.declareAll acknowledgedCandela).1 = firstResult := by rw [hfirst]
    have hbuilt : ((empty.declareAll acknowledgedCandela).1).build =
        .ok (empty.declareAll acknowledgedCandela).1 := rfl
    rw [hbuilt] at hrefused
    cases hrefused

end Vocabulary

end Metrology
