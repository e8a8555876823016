import Metrology.Proofs.Vocabulary.Representation
import Metrology.Vocabulary.Reading

/-!
# Every reading of a symbol is found

A symbol may be split into a prefix and a unit in several ways, one for each length of the prefix.
The search for them stops at the length of the longest prefix, which is kept beside the prefixes:
that it loses none rests on the agreement of the two (`WellFormed.length_le_longestPrefix`). Since a
split is determined by the length of its prefix, no two readings tie, and resolving a symbol is
never ambiguous.
-/

set_option autoImplicit false
set_option relaxedAutoImplicit false

namespace Metrology.Vocabulary

/-- A symbol is a prefix of the vocabulary followed by a unit of it. -/
structure Splits (vocabulary : Vocabulary) (symbol : Text) (first : PrefixEntry)
    (second : UnitEntry) : Prop where
  findPrefix_eq : vocabulary.findPrefix first.symbol = some first
  findUnit_eq : vocabulary.findUnit second.symbol = some second
  eq_append : symbol = first.symbol ++ second.symbol

theorem mem_splitLengths_iff {vocabulary : Vocabulary} {symbol : Text} {length : Nat} :
    length ∈ vocabulary.splitLengths symbol ↔
      0 < length ∧ length ≤ vocabulary.longestPrefix ∧ length < symbol.length := by
  simp only [splitLengths, List.mem_reverse, List.mem_map, List.mem_range]
  constructor
  · rintro ⟨index, hindex, rfl⟩
    omega
  · rintro ⟨hpositive, hlongest, hsymbol⟩
    exact ⟨length - 1, by omega, by omega⟩

/-- The longest prefix is tried first. -/
theorem pairwise_splitLengths (vocabulary : Vocabulary) (symbol : Text) :
    (vocabulary.splitLengths symbol).Pairwise (· > ·) := by
  rw [splitLengths, List.pairwise_reverse, List.pairwise_map]
  exact List.pairwise_lt_range.imp fun hlt ↦ Nat.succ_lt_succ hlt

namespace WellFormed

variable {vocabulary : Vocabulary} (hvocabulary : vocabulary.WellFormed)

include hvocabulary

/-- No prefix is longer than the longest one. -/
theorem length_le_longestPrefix {symbol : Text} {entry : PrefixEntry}
    (hfind : vocabulary.findPrefix symbol = some entry) :
    symbol.length ≤ vocabulary.longestPrefix := by
  have hmem : symbol ∈ vocabulary.prefixOrder :=
    (hvocabulary.mem_prefixOrder_iff symbol).mpr ⟨entry, hfind⟩
  rw [hvocabulary.longestPrefix_eq]
  generalize vocabulary.prefixOrder = symbols at hmem
  induction symbols with
  | nil => cases hmem
  | cons first rest ih =>
    rw [List.map_cons, List.foldr_cons]
    rcases List.mem_cons.mp hmem with rfl | hrest
    · exact Nat.le_max_left _ _
    · exact Nat.le_trans (ih hrest) (Nat.le_max_right _ _)

/-- Both parts of a split are proper, and the prefix is within the bound of the search. -/
theorem length_mem_splitLengths {symbol : Text} {first : PrefixEntry} {second : UnitEntry}
    (hsplits : vocabulary.Splits symbol first second) :
    first.symbol.length ∈ vocabulary.splitLengths symbol := by
  have hfirst := (hvocabulary.prefix_valid _ _ hsplits.findPrefix_eq).2.1
  have hsecond := (hvocabulary.unit_valid _ _ hsplits.findUnit_eq).2.1
  have hlength := congrArg List.length hsplits.eq_append
  rw [List.length_append] at hlength
  refine mem_splitLengths_iff.mpr ⟨List.length_pos_iff.mpr hfirst,
    hvocabulary.length_le_longestPrefix hsplits.findPrefix_eq, ?_⟩
  have := List.length_pos_iff.mpr hsecond
  omega

/-- Trying a length finds the split whose prefix has it. -/
theorem decompositionAt_eq_some_iff {symbol : Text} {length : Nat} {reading : Reading}
    (hlength : length ≤ symbol.length) :
    vocabulary.decompositionAt symbol length = some reading ↔
      ∃ first second, vocabulary.Splits symbol first second ∧ first.symbol.length = length ∧
        .prefixed first second = reading := by
  unfold decompositionAt
  constructor
  · intro hreading
    split at hreading
    · next first second hfirst hsecond =>
      have hsymbols := (hvocabulary.prefix_valid _ _ hfirst).1
      have hunit := (hvocabulary.unit_valid _ _ hsecond).1
      refine ⟨first, second, ⟨hsymbols ▸ hfirst, hunit ▸ hsecond, ?_⟩, ?_, Option.some.inj hreading⟩
      · rw [hsymbols, hunit, List.take_append_drop]
      · rw [hsymbols, List.length_take, Nat.min_eq_left hlength]
    · cases hreading
  · rintro ⟨first, second, hsplits, rfl, rfl⟩
    rw [hsplits.eq_append, List.take_left, List.drop_left, hsplits.findPrefix_eq,
      hsplits.findUnit_eq]

/-- The search finds the splits of a symbol, and nothing else. -/
theorem mem_decompositions_iff {symbol : Text} {reading : Reading} :
    reading ∈ vocabulary.decompositions symbol ↔
      ∃ first second, vocabulary.Splits symbol first second ∧
        .prefixed first second = reading := by
  rw [decompositions, List.mem_filterMap]
  constructor
  · rintro ⟨length, hlength, hreading⟩
    have hle := Nat.le_of_lt (mem_splitLengths_iff.mp hlength).2.2
    obtain ⟨first, second, hsplits, _, heq⟩ :=
      (hvocabulary.decompositionAt_eq_some_iff hle).mp hreading
    exact ⟨first, second, hsplits, heq⟩
  · rintro ⟨first, second, hsplits, heq⟩
    have hlength := hvocabulary.length_mem_splitLengths hsplits
    have hle := Nat.le_of_lt (mem_splitLengths_iff.mp hlength).2.2
    exact ⟨first.symbol.length, hlength,
      (hvocabulary.decompositionAt_eq_some_iff hle).mpr ⟨first, second, hsplits, rfl, heq⟩⟩

/-- The readings with longer prefixes come first, and no two prefixes have one length. -/
theorem pairwise_decompositions (symbol : Text) :
    (vocabulary.decompositions symbol).Pairwise fun first second ↦
      second.prefixSymbol.length < first.prefixSymbol.length := by
  have hlength : ∀ length ∈ vocabulary.splitLengths symbol, ∀ reading,
      vocabulary.decompositionAt symbol length = some reading →
        reading.prefixSymbol.length = length := by
    intro length hmem reading hreading
    have hle := Nat.le_of_lt (mem_splitLengths_iff.mp hmem).2.2
    obtain ⟨first, second, _, heq, rfl⟩ :=
      (hvocabulary.decompositionAt_eq_some_iff hle).mp hreading
    exact heq
  rw [decompositions, List.pairwise_filterMap]
  refine (pairwise_splitLengths vocabulary symbol).imp_of_mem ?_
  intro longer shorter hlonger hshorter hgt first hfirst second hsecond
  rw [hlength longer hlonger first hfirst, hlength shorter hshorter second hsecond]
  exact hgt

/-- A symbol that is no unit is resolved to the first of its splits; no other one ties with it. -/
theorem resolve_eq_of_findUnit_eq_none {symbol : Text} (hunit : vocabulary.findUnit symbol = none) :
    vocabulary.resolve symbol =
      (vocabulary.decompositions symbol).head?.elim (.error (.unknown symbol)) .ok := by
  have hpairwise := hvocabulary.pairwise_decompositions symbol
  unfold resolve
  rw [hunit]
  cases hreadings : vocabulary.decompositions symbol with
  | nil => rfl
  | cons best others =>
    rw [hreadings, List.pairwise_cons] at hpairwise
    have hrivals : (others.takeWhile fun other ↦
        other.prefixSymbol.length = best.prefixSymbol.length) = [] := by
      cases others with
      | nil => rfl
      | cons other rest =>
        have hlt := hpairwise.1 other (by simp)
        exact List.takeWhile_cons_of_neg (by simpa using Nat.ne_of_lt hlt)
    simp only [hrivals, List.head?_cons, Option.elim_some]

/-- A symbol that is no unit is resolved to its split with the longest prefix. -/
theorem resolve_eq_ok_iff_of_findUnit_eq_none {symbol : Text} {reading : Reading}
    (hunit : vocabulary.findUnit symbol = none) :
    vocabulary.resolve symbol = .ok reading ↔
      ∃ first second, vocabulary.Splits symbol first second ∧
        (∀ first' second', vocabulary.Splits symbol first' second' →
          first'.symbol.length ≤ first.symbol.length) ∧
        .prefixed first second = reading := by
  have hmem : ∀ reading, reading ∈ vocabulary.decompositions symbol ↔ ∃ first second,
      vocabulary.Splits symbol first second ∧ .prefixed first second = reading :=
    fun _ ↦ hvocabulary.mem_decompositions_iff
  have hpairwise := hvocabulary.pairwise_decompositions symbol
  rw [hvocabulary.resolve_eq_of_findUnit_eq_none hunit]
  cases hreadings : vocabulary.decompositions symbol with
  | nil =>
    simp only [hreadings, List.not_mem_nil, false_iff] at hmem
    constructor
    · intro h
      cases h
    · rintro ⟨first, second, hsplits, _, rfl⟩
      exact absurd ⟨first, second, hsplits, rfl⟩ (hmem _)
  | cons best others =>
    rw [hreadings] at hmem hpairwise
    have hlongest : ∀ other ∈ best :: others,
        other.prefixSymbol.length ≤ best.prefixSymbol.length := by
      intro other hother
      rcases List.mem_cons.mp hother with rfl | hrest
      · exact Nat.le_refl _
      · exact Nat.le_of_lt ((List.pairwise_cons.mp hpairwise).1 other hrest)
    show Except.ok best = Except.ok reading ↔ _
    rw [Except.ok.injEq]
    constructor
    · rintro rfl
      obtain ⟨first, second, hsplits, rfl⟩ := (hmem best).mp (by simp)
      exact ⟨first, second, hsplits,
        fun first' second' hother ↦ hlongest _ ((hmem _).mpr ⟨first', second', hother, rfl⟩), rfl⟩
    · rintro ⟨first, second, hsplits, hgreatest, rfl⟩
      rcases List.mem_cons.mp ((hmem _).mpr ⟨first, second, hsplits, rfl⟩) with heq | hrest
      · exact heq.symm
      · obtain ⟨first', second', hbest, rfl⟩ := (hmem best).mp (by simp)
        have hlt := (List.pairwise_cons.mp hpairwise).1 _ hrest
        exact absurd hlt (Nat.not_lt.mpr (hgreatest first' second' hbest))

/-- A symbol that is no unit is unknown when it has no split. -/
theorem resolve_eq_error_iff {symbol : Text} {fault : SymbolFault} :
    vocabulary.resolve symbol = .error fault ↔
      fault = .unknown symbol ∧ vocabulary.findUnit symbol = none ∧
        ∀ first second, ¬ vocabulary.Splits symbol first second := by
  cases hunit : vocabulary.findUnit symbol with
  | some entry => simp [resolve, hunit]
  | none =>
    have hmem : ∀ reading, reading ∈ vocabulary.decompositions symbol ↔ ∃ first second,
        vocabulary.Splits symbol first second ∧ .prefixed first second = reading :=
      fun _ ↦ hvocabulary.mem_decompositions_iff
    rw [hvocabulary.resolve_eq_of_findUnit_eq_none hunit]
    cases hreadings : vocabulary.decompositions symbol with
    | nil =>
      simp only [hreadings, List.not_mem_nil, false_iff] at hmem
      constructor
      · intro h
        refine ⟨(Except.error.inj h).symm, rfl, fun first second hsplits ↦ ?_⟩
        exact hmem _ ⟨first, second, hsplits, rfl⟩
      · rintro ⟨rfl, _, _⟩
        rfl
    | cons best others =>
      constructor
      · intro h
        cases h
      · rintro ⟨_, _, hnone⟩
        rw [hreadings] at hmem
        obtain ⟨first, second, hsplits, _⟩ := (hmem best).mp (by simp)
        exact absurd hsplits (hnone first second)

end WellFormed

/-- In every reachable vocabulary, for every symbol: the decompositions are all splits of it into a
prefix and a unit, in strictly decreasing length of the prefix, each with the product of the scales
and the dimension of the unit. The symbol is resolved to the unit of that name if there is one, and
else to the split with the longest prefix; it is unknown when it is no unit and has no split, and
never ambiguous. -/
theorem Reachable.resolve_spec {vocabulary : Vocabulary} (hreachable : vocabulary.Reachable)
    (symbol : Text) :
    (vocabulary.decompositions symbol).Pairwise (fun first second ↦
        second.prefixSymbol.length < first.prefixSymbol.length) ∧
      (∀ reading, reading ∈ vocabulary.decompositions symbol ↔
        ∃ first second, vocabulary.Splits symbol first second ∧
          ⟨first.symbol, second.symbol, first.scale * second.scale, second.dimension⟩ = reading) ∧
      (∀ entry, vocabulary.findUnit symbol = some entry →
        vocabulary.resolve symbol = .ok ⟨[], symbol, entry.scale, entry.dimension⟩) ∧
      (vocabulary.findUnit symbol = none → ∀ reading, vocabulary.resolve symbol = .ok reading ↔
        ∃ first second, vocabulary.Splits symbol first second ∧
          (∀ first' second', vocabulary.Splits symbol first' second' →
            first'.symbol.length ≤ first.symbol.length) ∧
          ⟨first.symbol, second.symbol, first.scale * second.scale, second.dimension⟩ = reading) ∧
      (vocabulary.resolve symbol = .error (.unknown symbol) ↔
        vocabulary.findUnit symbol = none ∧
          ∀ first second, ¬ vocabulary.Splits symbol first second) ∧
      ∀ other candidates, vocabulary.resolve symbol ≠ .error (.ambiguous other candidates) := by
  have hvocabulary := hreachable.wellFormed
  refine ⟨hvocabulary.pairwise_decompositions symbol,
    fun reading ↦ hvocabulary.mem_decompositions_iff, fun entry hfind ↦ ?_,
    fun hunit reading ↦ hvocabulary.resolve_eq_ok_iff_of_findUnit_eq_none hunit, ?_,
    fun other candidates hambiguous ↦ ?_⟩
  · have hsymbol := (hvocabulary.unit_valid symbol entry hfind).1
    rw [resolve, hfind, ← hsymbol]
    rfl
  · rw [hvocabulary.resolve_eq_error_iff]
    simp
  · cases (hvocabulary.resolve_eq_error_iff.mp hambiguous).1

theorem resolve_spec_kibibytes :
    kibibytes.Reachable ∧ kibibytes.findUnit (utf8 "KiB") = none ∧
      ∃ first second, kibibytes.Splits (utf8 "KiB") first second ∧
        kibibytes.resolve (utf8 "KiB") =
          .ok ⟨first.symbol, second.symbol, first.scale * second.scale, second.dimension⟩ := by
  have hunit : kibibytes.findUnit (utf8 "KiB") = none := by decide
  have hresolve : kibibytes.resolve (utf8 "KiB") =
      .ok ⟨utf8 "Ki", utf8 "B", 1024.0 * 1.0, .one⟩ := rfl
  obtain ⟨first, second, hsplits, _, heq⟩ :=
    ((Reachable.resolve_spec reachable_kibibytes (utf8 "KiB")).2.2.2.1 hunit _).mp hresolve
  exact ⟨reachable_kibibytes, hunit, first, second, hsplits, heq ▸ hresolve⟩

end Metrology.Vocabulary
