import Metrology.Proofs.Vocabulary.Resolution
import Metrology.SI.Kinds
import Metrology.Vocabulary.Shadowing

/-!
# Building refuses hidden readings

A unit symbol hides a reading when it also splits into a prefix and a unit of another dimension or
scale, and nobody has acknowledged it. A vocabulary builds exactly when no symbol of it does
(`WellFormed.build_eq_ok_iff`). Otherwise the error is about the first symbol, in the order of
declaration, that does (`WellFormed.build_eq_error_iff`); it lists every reading that this symbol
hides and no harmless one. That no hidden reading is missed rests on the search for splits, which
finds all of them. Building is a function of the vocabulary: it only reads what was declared, and
further declarations go on from the same vocabulary whether it was built or refused.
-/

set_option autoImplicit false
set_option relaxedAutoImplicit false

namespace Metrology.Vocabulary

/-- A unit symbol that is not acknowledged also splits into a prefix and a unit, of another
dimension or scale than the unit of that name. -/
def HidesReading (vocabulary : Vocabulary) (symbol : Text) : Prop :=
  ∃ entry first second, vocabulary.findUnit symbol = some entry ∧
    ¬ vocabulary.Acknowledges symbol ∧ vocabulary.Splits symbol first second ∧
    (second.dimension ≠ entry.dimension ∨ ¬ SameScale (first.scale * second.scale) entry.scale)

/-- The fault of a unit is that there are conflicts without acknowledgement; it names all of
them. -/
theorem shadowing?_eq_some_iff {vocabulary : Vocabulary} {entry : UnitEntry} {fault : SymbolFault} :
    vocabulary.shadowing? entry = some fault ↔
      ¬ vocabulary.Acknowledges entry.symbol ∧ vocabulary.conflicts entry ≠ [] ∧
        fault = .ambiguous entry.symbol
          (entry.symbol :: (vocabulary.conflicts entry).map Reading.description) := by
  unfold shadowing?
  by_cases hacknowledged : vocabulary.Acknowledges entry.symbol
  · simp [hacknowledged]
  · rw [if_neg hacknowledged]
    cases hconflicts : vocabulary.conflicts entry with
    | nil => simp
    | cons reading rest => simp [hacknowledged, eq_comm]

/-- The check of all units is a check of all symbols, in the order of declaration. -/
theorem findSome?_unitEntries (vocabulary : Vocabulary) {α : Type}
    (check : UnitEntry → Option α) :
    vocabulary.unitEntries.findSome? check =
      vocabulary.unitOrder.findSome? fun symbol ↦ (vocabulary.findUnit symbol).bind check := by
  rw [unitEntries, ← List.head?_filterMap, List.filterMap_filterMap, List.head?_filterMap]

namespace WellFormed

variable {vocabulary : Vocabulary} (hvocabulary : vocabulary.WellFormed)

include hvocabulary

/-- The conflicts of a unit are the splits of its symbol with another dimension or scale. -/
theorem mem_conflicts_iff {symbol : Text} {entry : UnitEntry} {reading : Reading}
    (hfind : vocabulary.findUnit symbol = some entry) :
    reading ∈ vocabulary.conflicts entry ↔
      ∃ first second, vocabulary.Splits symbol first second ∧ .prefixed first second = reading ∧
        (second.dimension ≠ entry.dimension ∨
          ¬ SameScale (first.scale * second.scale) entry.scale) := by
  have hsymbol := (hvocabulary.unit_valid symbol entry hfind).1
  rw [conflicts, List.mem_filter, hsymbol, hvocabulary.mem_decompositions_iff, decide_eq_true_eq]
  constructor
  · rintro ⟨⟨first, second, hsplits, rfl⟩, hconflict⟩
    exact ⟨first, second, hsplits, rfl, hconflict⟩
  · rintro ⟨first, second, hsplits, rfl, hconflict⟩
    exact ⟨⟨first, second, hsplits, rfl⟩, hconflict⟩

/-- A symbol hides a reading when its unit has a fault. -/
theorem hidesReading_iff {symbol : Text} :
    vocabulary.HidesReading symbol ↔
      ∃ fault, (vocabulary.findUnit symbol).bind vocabulary.shadowing? = some fault := by
  constructor
  · rintro ⟨entry, first, second, hfind, hacknowledged, hsplits, hconflict⟩
    have hsymbol := (hvocabulary.unit_valid symbol entry hfind).1
    have hmem : Reading.prefixed first second ∈ vocabulary.conflicts entry :=
      (hvocabulary.mem_conflicts_iff hfind).mpr ⟨first, second, hsplits, rfl, hconflict⟩
    rw [hfind, Option.bind_some]
    exact ⟨_, shadowing?_eq_some_iff.mpr
      ⟨hsymbol ▸ hacknowledged, List.ne_nil_of_mem hmem, rfl⟩⟩
  · rintro ⟨fault, hfault⟩
    obtain ⟨entry, hfind, hentry⟩ := Option.bind_eq_some_iff.mp hfault
    have hsymbol := (hvocabulary.unit_valid symbol entry hfind).1
    obtain ⟨hacknowledged, hsome, _⟩ := shadowing?_eq_some_iff.mp hentry
    obtain ⟨reading, hreading⟩ := List.exists_mem_of_ne_nil _ hsome
    obtain ⟨first, second, hsplits, _, hconflict⟩ :=
      (hvocabulary.mem_conflicts_iff hfind).mp hreading
    exact ⟨entry, first, second, hfind, hsymbol ▸ hacknowledged, hsplits, hconflict⟩

theorem not_hidesReading_iff {symbol : Text} :
    ¬ vocabulary.HidesReading symbol ↔
      (vocabulary.findUnit symbol).bind vocabulary.shadowing? = none := by
  rw [hvocabulary.hidesReading_iff, Option.eq_none_iff_forall_ne_some, not_exists]

/-- A vocabulary builds when no symbol hides a reading, and what is built is the vocabulary. -/
theorem build_eq_ok_iff {result : Vocabulary} :
    vocabulary.build = .ok result ↔
      (∀ symbol, ¬ vocabulary.HidesReading symbol) ∧ vocabulary = result := by
  have hnone : vocabulary.unitEntries.findSome? vocabulary.shadowing? = none ↔
      ∀ symbol, ¬ vocabulary.HidesReading symbol := by
    rw [findSome?_unitEntries, List.findSome?_eq_none_iff]
    constructor
    · intro hall symbol hhides
      obtain ⟨entry, _, _, hfind, _⟩ := id hhides
      exact hvocabulary.not_hidesReading_iff.mpr
        (hall symbol (hvocabulary.mem_unitOrder hfind)) hhides
    · intro hall symbol _
      exact hvocabulary.not_hidesReading_iff.mp (hall symbol)
  rw [build, ← hnone]
  cases vocabulary.unitEntries.findSome? vocabulary.shadowing? <;> simp

/-- A vocabulary that does not build is refused for the first symbol that hides a reading. -/
theorem build_eq_error_iff {error : ExpressionError} :
    vocabulary.build = .error error ↔
      ∃ before symbol after entry, vocabulary.unitOrder = before ++ symbol :: after ∧
        (∀ earlier ∈ before, ¬ vocabulary.HidesReading earlier) ∧
        vocabulary.findUnit symbol = some entry ∧ ¬ vocabulary.Acknowledges symbol ∧
        vocabulary.conflicts entry ≠ [] ∧
        error = ⟨.symbol (.ambiguous symbol
          (symbol :: (vocabulary.conflicts entry).map Reading.description)), [], 0⟩ := by
  have hsome : vocabulary.build = .error error ↔ ∃ fault,
      vocabulary.unitEntries.findSome? vocabulary.shadowing? = some fault ∧
        error = ⟨.symbol fault, [], 0⟩ := by
    rw [build]
    cases vocabulary.unitEntries.findSome? vocabulary.shadowing? <;> simp [eq_comm]
  rw [hsome]
  constructor
  · rintro ⟨fault, hfault, rfl⟩
    rw [findSome?_unitEntries] at hfault
    obtain ⟨before, symbol, after, horder, hsymbol, hbefore⟩ :=
      List.findSome?_eq_some_iff.mp hfault
    obtain ⟨entry, hfind, hentry⟩ := Option.bind_eq_some_iff.mp hsymbol
    obtain ⟨hacknowledged, hconflicts, rfl⟩ := shadowing?_eq_some_iff.mp hentry
    rw [(hvocabulary.unit_valid symbol entry hfind).1] at hacknowledged ⊢
    exact ⟨before, symbol, after, entry, horder,
      fun earlier hearlier ↦ hvocabulary.not_hidesReading_iff.mpr (hbefore earlier hearlier),
      hfind, hacknowledged, hconflicts, rfl⟩
  · rintro ⟨before, symbol, after, entry, horder, hbefore, hfind, hacknowledged, hconflicts, rfl⟩
    have hsymbol := (hvocabulary.unit_valid symbol entry hfind).1
    refine ⟨_, ?_, rfl⟩
    rw [findSome?_unitEntries]
    refine List.findSome?_eq_some_iff.mpr ⟨before, symbol, after, horder, ?_,
      fun earlier hearlier ↦ hvocabulary.not_hidesReading_iff.mp (hbefore earlier hearlier)⟩
    rw [hfind, Option.bind_some]
    exact shadowing?_eq_some_iff.mpr ⟨hsymbol.symm ▸ hacknowledged, hconflicts, by rw [hsymbol]⟩

end WellFormed

/-- The day, the prefix centi, and the candela, whose symbol is that of the hundredth of a day. -/
def candela : Vocabulary :=
  (empty.declareAll
    [.prefixEntry ⟨utf8 "c", 0.01, utf8 "centi"⟩,
      .unitEntry ⟨utf8 "d", 86400.0, SI.Kind.time, utf8 "day", []⟩,
      .unitEntry ⟨utf8 "cd", 1.0, SI.Kind.luminousIntensity, utf8 "candela", []⟩]).1

end Metrology.Vocabulary
