import Mathlib.Data.List.Basic
import Metrology.Proofs.Vocabulary.Growth
import Metrology.Vocabulary.Rendering

/-!
# The fields of a vocabulary agree

A vocabulary keeps the same symbols in several places: the entries under their symbols, the orders
of declaration, the lists of the categories and the length of the longest prefix. `WellFormed` says
that these agree. An accepted declaration keeps it (`WellFormed.declare`), so every reachable
vocabulary has it (`Reachable.wellFormed`). It follows that looking up a listed symbol never fails:
no list of a category has a gap, and writing a dimension or the whole vocabulary never meets a
missing entry.
-/

set_option autoImplicit false
set_option relaxedAutoImplicit false

namespace Metrology.Vocabulary

open Fallible

/-- The symbol of a unit of a category. -/
def IsUnitIn (vocabulary : Vocabulary) (category symbol : Text) : Prop :=
  (vocabulary.findUnit symbol).map UnitEntry.group = some category

instance (vocabulary : Vocabulary) (category symbol : Text) :
    Decidable (vocabulary.IsUnitIn category symbol) :=
  inferInstanceAs (Decidable (_ = _))

/-- The orders, the categories and the longest prefix of a vocabulary are those of its entries, and
every entry stands under its own symbol and would be accepted. -/
structure WellFormed (vocabulary : Vocabulary) : Prop where
  nodup_unitOrder : vocabulary.unitOrder.Nodup
  nodup_prefixOrder : vocabulary.prefixOrder.Nodup
  mem_unitOrder_iff : ∀ symbol,
    symbol ∈ vocabulary.unitOrder ↔ ∃ entry, vocabulary.findUnit symbol = some entry
  mem_prefixOrder_iff : ∀ symbol,
    symbol ∈ vocabulary.prefixOrder ↔ ∃ entry, vocabulary.findPrefix symbol = some entry
  unit_valid : ∀ symbol entry, vocabulary.findUnit symbol = some entry →
    entry.symbol = symbol ∧ symbol ≠ [] ∧ ValidScale entry.scale
  prefix_valid : ∀ symbol entry, vocabulary.findPrefix symbol = some entry →
    entry.symbol = symbol ∧ symbol ≠ [] ∧ ValidScale entry.scale
  longestPrefix_eq :
    vocabulary.longestPrefix = (vocabulary.prefixOrder.map List.length).foldr max 0
  group_ne_nil : ∀ category, vocabulary.groups.find? category ≠ some []
  symbolsIn_eq : ∀ category, vocabulary.symbolsIn category =
    vocabulary.unitOrder.filter fun symbol ↦ vocabulary.IsUnitIn category symbol

/-! ### What an accepted declaration does to the lookups -/

section Lookups

variable (vocabulary : Vocabulary)

theorem findUnit_withUnit (entry : UnitEntry) (symbol : Text) :
    (vocabulary.withUnit entry).findUnit symbol =
      if symbol = entry.symbol then some entry else vocabulary.findUnit symbol :=
  Index.find?_put vocabulary.units entry.symbol symbol entry

theorem findPrefix_withPrefix (entry : PrefixEntry) (symbol : Text) :
    (vocabulary.withPrefix entry).findPrefix symbol =
      if symbol = entry.symbol then some entry else vocabulary.findPrefix symbol :=
  Index.find?_put vocabulary.prefixes entry.symbol symbol entry

@[simp] theorem findPrefix_withUnit (entry : UnitEntry) (symbol : Text) :
    (vocabulary.withUnit entry).findPrefix symbol = vocabulary.findPrefix symbol := rfl

@[simp] theorem findUnit_withPrefix (entry : PrefixEntry) (symbol : Text) :
    (vocabulary.withPrefix entry).findUnit symbol = vocabulary.findUnit symbol := rfl

@[simp] theorem findUnit_acknowledge (shadowed symbol : Text) :
    (vocabulary.acknowledge shadowed).findUnit symbol = vocabulary.findUnit symbol := rfl

@[simp] theorem findPrefix_acknowledge (shadowed symbol : Text) :
    (vocabulary.acknowledge shadowed).findPrefix symbol = vocabulary.findPrefix symbol := rfl

theorem find?_groups_withUnit (entry : UnitEntry) (category : Text) :
    (vocabulary.withUnit entry).groups.find? category =
      if category = entry.group then some (vocabulary.symbolsIn category ++ [entry.symbol])
      else vocabulary.groups.find? category := by
  show (vocabulary.groups.append entry.group entry.symbol).find? category = _
  rw [Index.append, Index.find?_put]
  by_cases heq : category = entry.group
  · rw [if_pos heq, if_pos heq, symbolsIn, heq]
  · rw [if_neg heq, if_neg heq]

theorem symbolsIn_withUnit (entry : UnitEntry) (category : Text) :
    (vocabulary.withUnit entry).symbolsIn category =
      vocabulary.symbolsIn category ++ if category = entry.group then [entry.symbol] else [] := by
  rw [symbolsIn, find?_groups_withUnit]
  by_cases heq : category = entry.group
  · rw [if_pos heq, if_pos heq, Option.getD_some]
  · rw [if_neg heq, if_neg heq, List.append_nil, symbolsIn]

/-- A declaration is accepted when its entry is valid and its symbol is free; what it then adds is
the entry. -/
theorem declare_eq_ok_iff {result : Vocabulary} {declaration : Declaration} :
    vocabulary.declare declaration = .ok result ↔
      match declaration with
      | .unitEntry entry =>
        (entry.symbol ≠ [] ∧ ValidScale entry.scale ∧ vocabulary.findUnit entry.symbol = none) ∧
          vocabulary.withUnit entry = result
      | .prefixEntry entry =>
        (entry.symbol ≠ [] ∧ ValidScale entry.scale ∧ vocabulary.findPrefix entry.symbol = none) ∧
          vocabulary.withPrefix entry = result
      | .acknowledgement symbol => vocabulary.acknowledge symbol = result := by
  cases declaration with
  | unitEntry entry => exact addUnit_eq_ok_iff
  | prefixEntry entry => exact addPrefix_eq_ok_iff
  | acknowledgement symbol =>
    show Except.ok _ = Except.ok _ ↔ _
    rw [Except.ok.injEq]

end Lookups

/-! ### Every accepted declaration keeps the agreement -/

theorem wellFormed_empty : WellFormed empty where
  nodup_unitOrder := List.nodup_nil
  nodup_prefixOrder := List.nodup_nil
  mem_unitOrder_iff symbol := by simp [empty, findUnit]
  mem_prefixOrder_iff symbol := by simp [empty, findPrefix]
  unit_valid symbol entry hfind := by simp [empty, findUnit] at hfind
  prefix_valid symbol entry hfind := by simp [empty, findPrefix] at hfind
  longestPrefix_eq := rfl
  group_ne_nil category := by simp [empty]
  symbolsIn_eq category := by simp [empty, symbolsIn]

namespace WellFormed

variable {vocabulary : Vocabulary}

theorem not_mem_unitOrder (hvocabulary : vocabulary.WellFormed) {symbol : Text}
    (hfree : vocabulary.findUnit symbol = none) : symbol ∉ vocabulary.unitOrder := by
  rw [hvocabulary.mem_unitOrder_iff, hfree]
  simp

theorem not_mem_prefixOrder (hvocabulary : vocabulary.WellFormed) {symbol : Text}
    (hfree : vocabulary.findPrefix symbol = none) : symbol ∉ vocabulary.prefixOrder := by
  rw [hvocabulary.mem_prefixOrder_iff, hfree]
  simp

/-- A further unit goes to the end of the order and of the list of its category, and changes no
other list. -/
theorem withUnit (hvocabulary : vocabulary.WellFormed) {entry : UnitEntry}
    (hsymbol : entry.symbol ≠ []) (hscale : ValidScale entry.scale)
    (hfree : vocabulary.findUnit entry.symbol = none) :
    (vocabulary.withUnit entry).WellFormed where
  nodup_unitOrder := by
    refine List.nodup_append.mpr ⟨hvocabulary.nodup_unitOrder, by simp, ?_⟩
    intro symbol hold other hnew
    rw [List.mem_singleton] at hnew
    rintro rfl
    exact hvocabulary.not_mem_unitOrder hfree (hnew ▸ hold)
  nodup_prefixOrder := hvocabulary.nodup_prefixOrder
  mem_unitOrder_iff symbol := by
    show symbol ∈ vocabulary.unitOrder ++ [entry.symbol] ↔ _
    rw [List.mem_append, List.mem_singleton, findUnit_withUnit, hvocabulary.mem_unitOrder_iff]
    by_cases heq : symbol = entry.symbol <;> simp [heq]
  mem_prefixOrder_iff := hvocabulary.mem_prefixOrder_iff
  unit_valid symbol found hfind := by
    rw [findUnit_withUnit] at hfind
    by_cases heq : symbol = entry.symbol
    · rw [if_pos heq, Option.some.injEq] at hfind
      subst hfind heq
      exact ⟨rfl, hsymbol, hscale⟩
    · rw [if_neg heq] at hfind
      exact hvocabulary.unit_valid symbol found hfind
  prefix_valid := hvocabulary.prefix_valid
  longestPrefix_eq := hvocabulary.longestPrefix_eq
  group_ne_nil category := by
    rw [find?_groups_withUnit]
    by_cases heq : category = entry.group
    · simp [heq]
    · rw [if_neg heq]
      exact hvocabulary.group_ne_nil category
  symbolsIn_eq category := by
    show _ = (vocabulary.unitOrder ++ [entry.symbol]).filter _
    have hold : vocabulary.unitOrder.filter
          (fun symbol ↦ (vocabulary.withUnit entry).IsUnitIn category symbol) =
        vocabulary.unitOrder.filter fun symbol ↦ vocabulary.IsUnitIn category symbol := by
      refine List.filter_congr fun symbol hmem ↦ ?_
      have hne : symbol ≠ entry.symbol := fun heq ↦
        hvocabulary.not_mem_unitOrder hfree (heq ▸ hmem)
      rw [decide_eq_decide, IsUnitIn, IsUnitIn, findUnit_withUnit, if_neg hne]
    have hnew : (vocabulary.withUnit entry).IsUnitIn category entry.symbol ↔
        category = entry.group := by
      rw [IsUnitIn, findUnit_withUnit, if_pos rfl, Option.map_some, Option.some.injEq]
      exact eq_comm
    rw [symbolsIn_withUnit, List.filter_append, hold, hvocabulary.symbolsIn_eq]
    by_cases heq : category = entry.group
    · rw [if_pos heq, List.filter_cons_of_pos (by simpa using hnew.mpr heq), List.filter_nil]
    · rw [if_neg heq, List.filter_cons_of_neg (by simpa using fun h ↦ heq (hnew.mp h)),
        List.filter_nil]

/-- A further prefix goes to the end of the order, and counts for the longest one. -/
theorem withPrefix (hvocabulary : vocabulary.WellFormed) {entry : PrefixEntry}
    (hsymbol : entry.symbol ≠ []) (hscale : ValidScale entry.scale)
    (hfree : vocabulary.findPrefix entry.symbol = none) :
    (vocabulary.withPrefix entry).WellFormed where
  nodup_unitOrder := hvocabulary.nodup_unitOrder
  nodup_prefixOrder := by
    refine List.nodup_append.mpr
      ⟨hvocabulary.nodup_prefixOrder, by simp, fun symbol hold other hnew ↦ ?_⟩
    rw [List.mem_singleton] at hnew
    rintro rfl
    exact hvocabulary.not_mem_prefixOrder hfree (hnew ▸ hold)
  mem_unitOrder_iff := hvocabulary.mem_unitOrder_iff
  mem_prefixOrder_iff symbol := by
    show symbol ∈ vocabulary.prefixOrder ++ [entry.symbol] ↔ _
    rw [List.mem_append, List.mem_singleton, findPrefix_withPrefix,
      hvocabulary.mem_prefixOrder_iff]
    by_cases heq : symbol = entry.symbol <;> simp [heq]
  unit_valid := hvocabulary.unit_valid
  prefix_valid symbol found hfind := by
    rw [findPrefix_withPrefix] at hfind
    by_cases heq : symbol = entry.symbol
    · rw [if_pos heq, Option.some.injEq] at hfind
      subst hfind heq
      exact ⟨rfl, hsymbol, hscale⟩
    · rw [if_neg heq] at hfind
      exact hvocabulary.prefix_valid symbol found hfind
  longestPrefix_eq := by
    show max vocabulary.longestPrefix entry.symbol.length =
      ((vocabulary.prefixOrder ++ [entry.symbol]).map List.length).foldr max 0
    rw [hvocabulary.longestPrefix_eq, List.map_append, List.foldr_append, List.map_singleton,
      List.foldr_cons, List.foldr_nil, Nat.max_zero]
    generalize vocabulary.prefixOrder.map List.length = lengths
    induction lengths with
    | nil => simp
    | cons length rest ih => rw [List.foldr_cons, List.foldr_cons, Nat.max_assoc, ih]
  group_ne_nil := hvocabulary.group_ne_nil
  symbolsIn_eq := hvocabulary.symbolsIn_eq

theorem acknowledge (hvocabulary : vocabulary.WellFormed) (symbol : Text) :
    (vocabulary.acknowledge symbol).WellFormed :=
  { hvocabulary with }

theorem declare (hvocabulary : vocabulary.WellFormed) {result : Vocabulary}
    {declaration : Declaration} (haccepted : vocabulary.declare declaration = .ok result) :
    result.WellFormed := by
  have hresult := (declare_eq_ok_iff vocabulary).mp haccepted
  cases declaration with
  | unitEntry entry =>
    obtain ⟨⟨hsymbol, hscale, hfree⟩, rfl⟩ := hresult
    exact hvocabulary.withUnit hsymbol hscale hfree
  | prefixEntry entry =>
    obtain ⟨⟨hsymbol, hscale, hfree⟩, rfl⟩ := hresult
    exact hvocabulary.withPrefix hsymbol hscale hfree
  | acknowledgement symbol =>
    subst hresult
    exact hvocabulary.acknowledge symbol

end WellFormed

/-- Growth keeps the agreement. -/
theorem Grows.wellFormed {first second : Vocabulary} (hgrows : Grows first second)
    (hfirst : first.WellFormed) : second.WellFormed :=
  hgrows.preserves (fun hvocabulary ↦ hvocabulary.declare) hfirst

/-- The fields of a reachable vocabulary agree. -/
theorem Reachable.wellFormed {vocabulary : Vocabulary} (hreachable : vocabulary.Reachable) :
    vocabulary.WellFormed :=
  (Evolves.grows hreachable).wellFormed wellFormed_empty

/-- Declarations that are all accepted keep the agreement. -/
theorem WellFormed.declareAll {vocabulary result : Vocabulary} {declarations : List Declaration}
    (hvocabulary : vocabulary.WellFormed)
    (haccepted : vocabulary.declareAll declarations = (result, none)) : result.WellFormed := by
  have hgrows := grows_declareAll vocabulary declarations
  rw [haccepted] at hgrows
  exact hgrows.wellFormed hvocabulary

/-! ### Listed symbols have entries -/

/-- Entries that are found under their own symbols have the symbols that were looked up. -/
theorem map_filterMap_find {α : Type} {symbolOf : α → Text} {find : Text → Option α}
    {symbols : List Text} (hfind : ∀ symbol ∈ symbols, ∃ entry, find symbol = some entry ∧
      symbolOf entry = symbol) :
    (symbols.filterMap find).map symbolOf = symbols := by
  rw [List.map_filterMap]
  conv => rhs; rw [← List.filterMap_some (l := symbols)]
  refine List.filterMap_congr fun symbol hsymbol ↦ ?_
  obtain ⟨entry, hentry, heq⟩ := hfind symbol hsymbol
  rw [hentry, Option.map_some, heq]

namespace WellFormed

variable {vocabulary : Vocabulary} (hvocabulary : vocabulary.WellFormed)

include hvocabulary

theorem mem_unitOrder {symbol : Text} {entry : UnitEntry}
    (hfind : vocabulary.findUnit symbol = some entry) : symbol ∈ vocabulary.unitOrder :=
  (hvocabulary.mem_unitOrder_iff symbol).mpr ⟨entry, hfind⟩

/-- The units are those of the list of units, each under its symbol. -/
theorem findUnit_eq_some_iff {symbol : Text} {entry : UnitEntry} :
    vocabulary.findUnit symbol = some entry ↔
      entry ∈ vocabulary.unitEntries ∧ entry.symbol = symbol := by
  rw [unitEntries, List.mem_filterMap]
  constructor
  · intro hfind
    exact ⟨⟨symbol, hvocabulary.mem_unitOrder hfind, hfind⟩,
      (hvocabulary.unit_valid symbol entry hfind).1⟩
  · rintro ⟨⟨other, _, hfind⟩, rfl⟩
    rwa [(hvocabulary.unit_valid other entry hfind).1]

/-- The prefixes are those of the list of prefixes, each under its symbol. -/
theorem findPrefix_eq_some_iff {symbol : Text} {entry : PrefixEntry} :
    vocabulary.findPrefix symbol = some entry ↔
      entry ∈ vocabulary.prefixEntries ∧ entry.symbol = symbol := by
  rw [prefixEntries, List.mem_filterMap]
  constructor
  · intro hfind
    exact ⟨⟨symbol, (hvocabulary.mem_prefixOrder_iff symbol).mpr ⟨entry, hfind⟩, hfind⟩,
      (hvocabulary.prefix_valid symbol entry hfind).1⟩
  · rintro ⟨⟨other, _, hfind⟩, rfl⟩
    rwa [(hvocabulary.prefix_valid other entry hfind).1]

theorem map_symbol_unitEntries :
    vocabulary.unitEntries.map UnitEntry.symbol = vocabulary.unitOrder := by
  refine map_filterMap_find fun symbol hsymbol ↦ ?_
  obtain ⟨entry, hfind⟩ := (hvocabulary.mem_unitOrder_iff symbol).mp hsymbol
  exact ⟨entry, hfind, (hvocabulary.unit_valid symbol entry hfind).1⟩

theorem map_symbol_prefixEntries :
    vocabulary.prefixEntries.map PrefixEntry.symbol = vocabulary.prefixOrder := by
  refine map_filterMap_find fun symbol hsymbol ↦ ?_
  obtain ⟨entry, hfind⟩ := (hvocabulary.mem_prefixOrder_iff symbol).mp hsymbol
  exact ⟨entry, hfind, (hvocabulary.prefix_valid symbol entry hfind).1⟩

/-- What a category lists are units. -/
theorem exists_findUnit_of_mem_symbolsIn {symbol category : Text}
    (hsymbol : symbol ∈ vocabulary.symbolsIn category) :
    ∃ entry, vocabulary.findUnit symbol = some entry := by
  rw [hvocabulary.symbolsIn_eq, List.mem_filter] at hsymbol
  exact (hvocabulary.mem_unitOrder_iff symbol).mp hsymbol.1

/-- Among symbols of units, the coherent unit is found without failure. -/
theorem findCoherent_eq_ok (identifier : Text) {symbols : List Text}
    (hsymbols : ∀ symbol ∈ symbols, symbol ∈ vocabulary.unitOrder) :
    vocabulary.findCoherent identifier symbols =
      .ok ((symbols.filterMap vocabulary.findUnit).find? fun entry ↦
        entry.IsCoherentFor identifier) := by
  induction symbols with
  | nil => rfl
  | cons symbol rest ih =>
    obtain ⟨entry, hfind⟩ := (hvocabulary.mem_unitOrder_iff symbol).mp (hsymbols symbol (by simp))
    have hrest := ih fun other hother ↦ hsymbols other (List.mem_cons_of_mem symbol hother)
    rw [findCoherent, hfind, List.filterMap_cons_some hfind]
    show (if entry.IsCoherentFor identifier then _ else _) = _
    by_cases hcoherent : entry.IsCoherentFor identifier
    · rw [if_pos hcoherent, List.find?_cons_of_pos (by simpa using hcoherent)]
    · rw [if_neg hcoherent, List.find?_cons_of_neg (by simpa using hcoherent), hrest]

/-- The coherent unit of a base dimension with a name is the first declared one that is coherent for
it. -/
theorem coherentUnit_eq_ok {identifier : Text} (hidentifier : identifier ≠ []) :
    vocabulary.coherentUnit identifier =
      .ok (vocabulary.unitEntries.find? fun entry ↦ entry.IsCoherentFor identifier) := by
  rw [coherentUnit, if_neg hidentifier]
  exact hvocabulary.findCoherent_eq_ok identifier fun symbol hsymbol ↦ hsymbol

end WellFormed

/-- A vocabulary with a unit and a prefix of its own, whose last declaration was refused. -/
def kibibytes : Vocabulary :=
  (empty.declareAll
    [.prefixEntry ⟨utf8 "Ki", 1024.0, utf8 "kibi"⟩,
      .unitEntry ⟨utf8 "B", 1.0, .one, utf8 "byte", []⟩,
      .unitEntry ⟨utf8 "B", 8.0, .one, utf8 "bit", []⟩]).1

theorem reachable_kibibytes : kibibytes.Reachable :=
  evolves_declareAll _ _

end Metrology.Vocabulary
