import Metrology.Proofs.Vocabulary.Extension

/-!
# What declarations add

Declarations that are all accepted leave a vocabulary with what it had and, behind it, their entries
in the order in which they were made (`appends_of_declareAll`). `Appends` says so of everything that
can be asked of a vocabulary: the orders, the lookups, the lists of the categories, the longest
prefix and the acknowledgements. Declarations are all accepted when their entries are valid and no
symbol is taken, neither before nor among them (`Admits.exists_declareAll`).
-/

set_option autoImplicit false
set_option relaxedAutoImplicit false

namespace Metrology

namespace Declaration

/-- The unit that is declared, if one is. -/
def unit? : Declaration → Option UnitEntry
  | unitEntry entry => some entry
  | _ => none

/-- The prefix that is declared, if one is. -/
def prefix? : Declaration → Option PrefixEntry
  | prefixEntry entry => some entry
  | _ => none

/-- The units among declarations, in their order. -/
def unitsOf (declarations : List Declaration) : List UnitEntry :=
  declarations.filterMap unit?

/-- The prefixes among declarations, in their order. -/
def prefixesOf (declarations : List Declaration) : List PrefixEntry :=
  declarations.filterMap prefix?

/-- The symbol and the scale of an entry may be declared. -/
def IsValid : Declaration → Prop
  | unitEntry entry => entry.symbol ≠ [] ∧ ValidScale entry.scale
  | prefixEntry entry => entry.symbol ≠ [] ∧ ValidScale entry.scale
  | acknowledgement _ => True

instance : DecidablePred IsValid
  | unitEntry _ => inferInstanceAs (Decidable (_ ∧ _))
  | prefixEntry _ => inferInstanceAs (Decidable (_ ∧ _))
  | acknowledgement _ => .isTrue trivial

theorem unitsOf_append (first second : List Declaration) :
    unitsOf (first ++ second) = unitsOf first ++ unitsOf second :=
  List.filterMap_append

theorem prefixesOf_append (first second : List Declaration) :
    prefixesOf (first ++ second) = prefixesOf first ++ prefixesOf second :=
  List.filterMap_append

end Declaration

namespace Vocabulary

open Declaration

/-! ### One accepted declaration after the other -/

theorem declareAll_cons_of_declare {vocabulary next : Vocabulary} {declaration : Declaration}
    (haccepted : vocabulary.declare declaration = .ok next) (rest : List Declaration) :
    vocabulary.declareAll (declaration :: rest) = next.declareAll rest := by
  rw [declareAll, attempt, haccepted]

theorem declareAll_cons_eq_none_iff {vocabulary result : Vocabulary} {declaration : Declaration}
    {rest : List Declaration} :
    vocabulary.declareAll (declaration :: rest) = (result, none) ↔
      ∃ next, vocabulary.declare declaration = .ok next ∧
        next.declareAll rest = (result, none) := by
  cases hdeclare : vocabulary.declare declaration with
  | ok next => simp [declareAll_cons_of_declare hdeclare]
  | error error => simp [declareAll, attempt, hdeclare]

/-! ### What is there after them -/

/-- A vocabulary has what another one has and, behind it, the entries of declarations in their
order. There is nothing else in it. -/
structure Appends (vocabulary : Vocabulary) (declarations : List Declaration)
    (result : Vocabulary) : Prop where
  unitOrder_eq : result.unitOrder =
    vocabulary.unitOrder ++ (unitsOf declarations).map UnitEntry.symbol
  prefixOrder_eq : result.prefixOrder =
    vocabulary.prefixOrder ++ (prefixesOf declarations).map PrefixEntry.symbol
  findUnit_iff : ∀ symbol entry, result.findUnit symbol = some entry ↔
    vocabulary.findUnit symbol = some entry ∨ entry ∈ unitsOf declarations ∧ entry.symbol = symbol
  findPrefix_iff : ∀ symbol entry, result.findPrefix symbol = some entry ↔
    vocabulary.findPrefix symbol = some entry ∨
      entry ∈ prefixesOf declarations ∧ entry.symbol = symbol
  symbolsIn_eq : ∀ category, result.symbolsIn category = vocabulary.symbolsIn category ++
    ((unitsOf declarations).filter fun entry ↦ category = entry.group).map UnitEntry.symbol
  longestPrefix_eq : result.longestPrefix =
    ((prefixesOf declarations).map fun entry ↦ entry.symbol.length).foldl max
      vocabulary.longestPrefix
  acknowledges_iff : ∀ symbol, result.Acknowledges symbol ↔
    vocabulary.Acknowledges symbol ∨ .acknowledgement symbol ∈ declarations

namespace Appends

variable {vocabulary middle result : Vocabulary}

theorem refl (vocabulary : Vocabulary) : Appends vocabulary [] vocabulary where
  unitOrder_eq := (List.append_nil _).symm
  prefixOrder_eq := (List.append_nil _).symm
  findUnit_iff symbol entry := by simp [unitsOf]
  findPrefix_iff symbol entry := by simp [prefixesOf]
  symbolsIn_eq category := (List.append_nil _).symm
  longestPrefix_eq := rfl
  acknowledges_iff symbol := by simp

theorem trans {first second : List Declaration} (hfirst : Appends vocabulary first middle)
    (hsecond : Appends middle second result) : Appends vocabulary (first ++ second) result where
  unitOrder_eq := by
    rw [hsecond.unitOrder_eq, hfirst.unitOrder_eq, unitsOf_append, List.map_append,
      List.append_assoc]
  prefixOrder_eq := by
    rw [hsecond.prefixOrder_eq, hfirst.prefixOrder_eq, prefixesOf_append, List.map_append,
      List.append_assoc]
  findUnit_iff symbol entry := by
    rw [hsecond.findUnit_iff, hfirst.findUnit_iff, unitsOf_append, List.mem_append, or_assoc,
      ← or_and_right]
  findPrefix_iff symbol entry := by
    rw [hsecond.findPrefix_iff, hfirst.findPrefix_iff, prefixesOf_append, List.mem_append, or_assoc,
      ← or_and_right]
  symbolsIn_eq category := by
    rw [hsecond.symbolsIn_eq, hfirst.symbolsIn_eq, unitsOf_append, List.filter_append,
      List.map_append, List.append_assoc]
  longestPrefix_eq := by
    rw [hsecond.longestPrefix_eq, hfirst.longestPrefix_eq, prefixesOf_append, List.map_append,
      List.foldl_append]
  acknowledges_iff symbol := by
    rw [hsecond.acknowledges_iff, hfirst.acknowledges_iff, List.mem_append, or_assoc]

theorem findUnit_iff_of_empty {declarations : List Declaration}
    (happends : Appends empty declarations result) {symbol : Text} {entry : UnitEntry} :
    result.findUnit symbol = some entry ↔ entry ∈ unitsOf declarations ∧ entry.symbol = symbol := by
  rw [happends.findUnit_iff]
  exact or_iff_right (by simp [empty, findUnit])

theorem findPrefix_iff_of_empty {declarations : List Declaration}
    (happends : Appends empty declarations result) {symbol : Text} {entry : PrefixEntry} :
    result.findPrefix symbol = some entry ↔
      entry ∈ prefixesOf declarations ∧ entry.symbol = symbol := by
  rw [happends.findPrefix_iff]
  exact or_iff_right (by simp [empty, findPrefix])

theorem acknowledges_iff_of_empty {declarations : List Declaration}
    (happends : Appends empty declarations result) {symbol : Text} :
    result.Acknowledges symbol ↔ .acknowledgement symbol ∈ declarations := by
  rw [happends.acknowledges_iff]
  exact or_iff_right (by simp [Acknowledges, empty])

end Appends

/-- An accepted declaration adds its entry. -/
theorem appends_of_declare {vocabulary result : Vocabulary} {declaration : Declaration}
    (haccepted : vocabulary.declare declaration = .ok result) :
    vocabulary.Appends [declaration] result := by
  have hunit : ∀ symbol entry, result.findUnit symbol = some entry ↔
      vocabulary.findUnit symbol = some entry ∨ entry ∈ unitsOf [declaration] ∧
        entry.symbol = symbol := by
    intro symbol entry
    rw [findUnit_declare_iff haccepted]
    cases declaration <;> simp [unitsOf, unit?, eq_comm]
  have hprefix : ∀ symbol entry, result.findPrefix symbol = some entry ↔
      vocabulary.findPrefix symbol = some entry ∨ entry ∈ prefixesOf [declaration] ∧
        entry.symbol = symbol := by
    intro symbol entry
    rw [findPrefix_declare_iff haccepted]
    cases declaration <;> simp [prefixesOf, prefix?, eq_comm]
  have hresult := (declare_eq_ok_iff vocabulary).mp haccepted
  cases declaration with
  | unitEntry entry =>
    obtain ⟨_, rfl⟩ := hresult
    refine ⟨rfl, (List.append_nil _).symm, hunit, hprefix, fun category ↦ ?_, rfl, fun symbol ↦ ?_⟩
    · rw [symbolsIn_withUnit]
      by_cases heq : category = entry.group <;> simp [unitsOf, unit?, heq]
    · exact (or_iff_left (by simp)).symm
  | prefixEntry entry =>
    obtain ⟨_, rfl⟩ := hresult
    refine ⟨(List.append_nil _).symm, rfl, hunit, hprefix, fun category ↦ ?_, rfl, fun symbol ↦ ?_⟩
    · exact (List.append_nil _).symm
    · exact (or_iff_left (by simp)).symm
  | acknowledgement other =>
    subst hresult
    refine ⟨(List.append_nil _).symm, (List.append_nil _).symm, hunit, hprefix, fun category ↦ ?_,
      rfl, fun symbol ↦ ?_⟩
    · exact (List.append_nil _).symm
    · show symbol ∈ vocabulary.acknowledged.insert other ↔ _
      rw [List.mem_insert_iff, or_comm]
      simp [Acknowledges]

/-- Declarations that are all accepted add their entries. -/
theorem appends_of_declareAll {vocabulary result : Vocabulary} {declarations : List Declaration}
    (haccepted : vocabulary.declareAll declarations = (result, none)) :
    vocabulary.Appends declarations result := by
  induction declarations generalizing vocabulary with
  | nil =>
    cases haccepted
    exact .refl _
  | cons declaration rest ih =>
    obtain ⟨next, hfirst, hrest⟩ := declareAll_cons_eq_none_iff.mp haccepted
    exact (appends_of_declare hfirst).trans (ih hrest)

/-- A vocabulary that grows is appended to. -/
theorem Grows.exists_appends {first second : Vocabulary} (hgrows : Grows first second) :
    ∃ declarations, first.Appends declarations second := by
  induction hgrows with
  | refl => exact ⟨[], .refl _⟩
  | step _ accepted ih =>
    obtain ⟨declarations, happends⟩ := ih
    exact ⟨_, happends.trans (appends_of_declare accepted)⟩

/-- Entries found under symbols are found under them in a vocabulary with more of them. -/
theorem filterMap_append_map {α : Type} {symbolOf : α → Text} {find findLater : Text → Option α}
    {symbols : List Text} {added : List α} (hkept : ∀ symbol ∈ symbols, ∃ entry,
      find symbol = some entry ∧ findLater symbol = some entry)
    (hadded : ∀ entry ∈ added, findLater (symbolOf entry) = some entry) :
    (symbols ++ added.map symbolOf).filterMap findLater = symbols.filterMap find ++ added := by
  rw [List.filterMap_append, List.filterMap_map]
  congr 1
  · refine List.filterMap_congr fun symbol hsymbol ↦ ?_
    obtain ⟨entry, hfind, hlater⟩ := hkept symbol hsymbol
    rw [hfind, hlater]
  · exact (List.filterMap_congr hadded).trans List.filterMap_some

/-- Units are declared behind those there are. -/
theorem Appends.unitEntries_eq {vocabulary result : Vocabulary} {declarations : List Declaration}
    (happends : vocabulary.Appends declarations result) (hvocabulary : vocabulary.WellFormed) :
    result.unitEntries = vocabulary.unitEntries ++ unitsOf declarations := by
  rw [unitEntries, happends.unitOrder_eq]
  refine filterMap_append_map (fun symbol hsymbol ↦ ?_) fun entry hentry ↦
    (happends.findUnit_iff _ _).mpr (.inr ⟨hentry, rfl⟩)
  obtain ⟨entry, hfind⟩ := (hvocabulary.mem_unitOrder_iff symbol).mp hsymbol
  exact ⟨entry, hfind, (happends.findUnit_iff _ _).mpr (.inl hfind)⟩

/-! ### When they are accepted -/

/-- The entries of declarations are valid, and no symbol of a unit or of a prefix is taken, neither
in a vocabulary nor by another of them. -/
structure Admits (vocabulary : Vocabulary) (declarations : List Declaration) : Prop where
  valid : ∀ declaration ∈ declarations, declaration.IsValid
  nodup_units : ((unitsOf declarations).map UnitEntry.symbol).Nodup
  nodup_prefixes : ((prefixesOf declarations).map PrefixEntry.symbol).Nodup
  unit_free : ∀ entry ∈ unitsOf declarations, vocabulary.findUnit entry.symbol = none
  prefix_free : ∀ entry ∈ prefixesOf declarations, vocabulary.findPrefix entry.symbol = none

/-- The first of admitted declarations is accepted, and the others are admitted after it. -/
theorem Admits.exists_declare {vocabulary : Vocabulary} {declaration : Declaration}
    {rest : List Declaration} (hadmits : vocabulary.Admits (declaration :: rest)) :
    ∃ next, vocabulary.declare declaration = .ok next ∧ next.Admits rest := by
  obtain ⟨hvalid, hunits, hprefixes, hunit, hprefix⟩ := hadmits
  have hfirst := hvalid declaration (by simp)
  have hrest : ∀ other ∈ rest, other.IsValid :=
    fun other hother ↦ hvalid other (List.mem_cons_of_mem declaration hother)
  cases declaration with
  | unitEntry entry =>
    have hfree := hunit entry (by simp [unitsOf, unit?])
    obtain ⟨hnew, hothers⟩ := List.nodup_cons.mp hunits
    refine ⟨vocabulary.withUnit entry,
      (declare_eq_ok_iff vocabulary).mpr ⟨⟨hfirst.1, hfirst.2, hfree⟩, rfl⟩, hrest, hothers,
      hprefixes, fun other hother ↦ ?_, hprefix⟩
    have hne : other.symbol ≠ entry.symbol :=
      fun heq ↦ hnew (heq ▸ List.mem_map_of_mem hother)
    rw [findUnit_withUnit, if_neg hne]
    exact hunit other (List.mem_cons_of_mem entry hother)
  | prefixEntry entry =>
    have hfree := hprefix entry (by simp [prefixesOf, prefix?])
    obtain ⟨hnew, hothers⟩ := List.nodup_cons.mp hprefixes
    refine ⟨vocabulary.withPrefix entry,
      (declare_eq_ok_iff vocabulary).mpr ⟨⟨hfirst.1, hfirst.2, hfree⟩, rfl⟩, hrest, hunits,
      hothers, hunit, fun other hother ↦ ?_⟩
    have hne : other.symbol ≠ entry.symbol :=
      fun heq ↦ hnew (heq ▸ List.mem_map_of_mem hother)
    rw [findPrefix_withPrefix, if_neg hne]
    exact hprefix other (List.mem_cons_of_mem entry hother)
  | acknowledgement symbol =>
    exact ⟨vocabulary.acknowledge symbol, rfl, hrest, hunits, hprefixes, hunit, hprefix⟩

/-- Admitted declarations are all accepted. -/
theorem Admits.exists_declareAll {vocabulary : Vocabulary} {declarations : List Declaration}
    (hadmits : vocabulary.Admits declarations) :
    ∃ result, vocabulary.declareAll declarations = (result, none) := by
  induction declarations generalizing vocabulary with
  | nil => exact ⟨vocabulary, rfl⟩
  | cons declaration rest ih =>
    obtain ⟨next, haccepted, hnext⟩ := hadmits.exists_declare
    obtain ⟨result, hresult⟩ := ih hnext
    exact ⟨result, declareAll_cons_eq_none_iff.mpr ⟨next, haccepted, hresult⟩⟩

end Vocabulary

end Metrology
