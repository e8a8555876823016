import Metrology.Proofs.Vocabulary.Seeding

/-!
# Seeding unites vocabularies

Seeding a vocabulary from another succeeds exactly when no prefix and no unit of the other has a
symbol that is taken. It then holds the entries of both, those of the other behind its own
(`IsUnion`). Otherwise it stops at the first symbol that is taken, of the prefixes first and then of
the units, and holds what came before that symbol (`TakesOver`, `Reachable.seed_spec`). A vocabulary
that is seeded from itself stops at its first entry, so that nothing is ever read from it after it
was changed (`WellFormed.seedReading_id`).
-/

set_option autoImplicit false
set_option relaxedAutoImplicit false

namespace Metrology.Vocabulary

open Declaration

/-! ### What is there after seeding -/

/-- A vocabulary has what another one has and, behind it, the entries that a third one has under
some of its symbols. Acknowledgements come with the units. -/
structure TakesOver (vocabulary other : Vocabulary) (prefixes units : List Text)
    (result : Vocabulary) : Prop where
  prefixOrder_eq : result.prefixOrder = vocabulary.prefixOrder ++ prefixes
  unitOrder_eq : result.unitOrder = vocabulary.unitOrder ++ units
  findPrefix_eq : ∀ symbol, result.findPrefix symbol =
    if symbol ∈ prefixes then other.findPrefix symbol else vocabulary.findPrefix symbol
  findUnit_eq : ∀ symbol, result.findUnit symbol =
    if symbol ∈ units then other.findUnit symbol else vocabulary.findUnit symbol
  symbolsIn_eq : ∀ category, result.symbolsIn category = vocabulary.symbolsIn category ++
    units.filter fun symbol ↦ other.IsUnitIn category symbol
  longestPrefix_eq : result.longestPrefix =
    max vocabulary.longestPrefix ((prefixes.map List.length).foldr max 0)
  acknowledges_iff : ∀ symbol, result.Acknowledges symbol ↔
    vocabulary.Acknowledges symbol ∨ other.Acknowledges symbol ∧ symbol ∈ units

/-- A vocabulary has the entries of two others, and nothing else. Those of the second stand behind
those of the first. -/
structure IsUnion (vocabulary other result : Vocabulary) : Prop where
  prefixOrder_eq : result.prefixOrder = vocabulary.prefixOrder ++ other.prefixOrder
  unitOrder_eq : result.unitOrder = vocabulary.unitOrder ++ other.unitOrder
  findPrefix_eq : ∀ symbol, result.findPrefix symbol =
    (vocabulary.findPrefix symbol).or (other.findPrefix symbol)
  findUnit_eq : ∀ symbol, result.findUnit symbol =
    (vocabulary.findUnit symbol).or (other.findUnit symbol)
  symbolsIn_eq : ∀ category, result.symbolsIn category =
    vocabulary.symbolsIn category ++ other.symbolsIn category
  unitsIn_eq : ∀ category, result.unitsIn category =
    vocabulary.unitsIn category ++ other.unitsIn category
  mem_categories_iff : ∀ category, category ∈ result.categories ↔
    category ∈ vocabulary.categories ∨ category ∈ other.categories
  longestPrefix_eq : result.longestPrefix = max vocabulary.longestPrefix other.longestPrefix
  acknowledges_iff : ∀ symbol, result.Acknowledges symbol ↔
    vocabulary.Acknowledges symbol ∨ other.Acknowledges symbol ∧ symbol ∈ other.unitOrder

theorem WellFormed.mem_categories_iff {vocabulary : Vocabulary}
    (hvocabulary : vocabulary.WellFormed) (category : Text) :
    category ∈ vocabulary.categories ↔ vocabulary.symbolsIn category ≠ [] := by
  have hsome := hvocabulary.group_ne_nil category
  rw [categories, Index.mem_keys_iff, symbolsIn]
  cases hfind : vocabulary.groups.find? category with
  | none => simp
  | some symbols => simpa [hfind] using hsome

/-- Entries of a part, found under their own symbols in the whole. -/
theorem eq_ite_of_eq_some_iff {α : Type} {symbolOf : α → Text} {part : List α}
    {found first second : Text → Option α}
    (hpart : ∀ entry ∈ part, second (symbolOf entry) = some entry)
    (hfree : ∀ entry ∈ part, first (symbolOf entry) = none)
    (hfound : ∀ symbol entry, found symbol = some entry ↔
      first symbol = some entry ∨ entry ∈ part ∧ symbolOf entry = symbol) (symbol : Text) :
    found symbol = if symbol ∈ part.map symbolOf then second symbol else first symbol := by
  refine Option.ext fun entry ↦ ?_
  rw [hfound]
  split
  · next hsymbol =>
    obtain ⟨member, hmember, rfl⟩ := List.mem_map.mp hsymbol
    rw [hfree member hmember, hpart member hmember, Option.some.injEq]
    constructor
    · rintro (hnone | ⟨hentry, heq⟩)
      · cases hnone
      · rw [← Option.some.injEq, ← hpart member hmember, ← heq, hpart entry hentry]
    · rintro rfl
      exact .inr ⟨hmember, rfl⟩
  · next hsymbol =>
    refine or_iff_left ?_
    rintro ⟨hentry, rfl⟩
    exact hsymbol (List.mem_map_of_mem hentry)

section

variable {vocabulary other result : Vocabulary} {prefixes : List PrefixEntry}
  {units : List UnitEntry}

theorem foldl_max_eq (first : Nat) (lengths : List Nat) :
    lengths.foldl max first = max first (lengths.foldr max 0) := by
  induction lengths generalizing first with
  | nil => simp
  | cons length rest ih => rw [List.foldl_cons, List.foldr_cons, ih, Nat.max_assoc]

/-- Copies of entries are found under the symbols of the entries. -/
theorem Appends.takesOver (happends : vocabulary.Appends (other.copying prefixes units) result)
    (hother : other.WellFormed) (hprefixes : prefixes ⊆ other.prefixEntries)
    (hunits : units ⊆ other.unitEntries)
    (hprefixFree : ∀ entry ∈ prefixes, vocabulary.findPrefix entry.symbol = none)
    (hunitFree : ∀ entry ∈ units, vocabulary.findUnit entry.symbol = none) :
    vocabulary.TakesOver other (prefixes.map PrefixEntry.symbol) (units.map UnitEntry.symbol)
      result := by
  obtain ⟨hunitOrder, hprefixOrder, hfindUnit, hfindPrefix, hsymbolsIn, hlongest, hacknowledges⟩ :=
    happends
  rw [unitsOf_copying] at hunitOrder
  rw [prefixesOf_copying] at hprefixOrder hlongest
  simp only [unitsOf_copying] at hfindUnit hsymbolsIn
  simp only [prefixesOf_copying] at hfindPrefix
  have hunit : ∀ entry ∈ units, other.findUnit entry.symbol = some entry :=
    fun entry hentry ↦ hother.findUnit_eq_some_iff.mpr ⟨hunits hentry, rfl⟩
  refine ⟨hprefixOrder, hunitOrder, eq_ite_of_eq_some_iff (fun entry hentry ↦ ?_) hprefixFree
    hfindPrefix, eq_ite_of_eq_some_iff hunit hunitFree hfindUnit, fun category ↦ ?_, ?_,
    fun symbol ↦ ?_⟩
  · exact hother.findPrefix_eq_some_iff.mpr ⟨hprefixes hentry, rfl⟩
  · rw [hsymbolsIn, List.filter_map]
    refine congrArg (fun added ↦ _ ++ added.map UnitEntry.symbol) (List.filter_congr ?_)
    intro entry hentry
    rw [Function.comp_apply, decide_eq_decide, IsUnitIn, hunit entry hentry, Option.map_some,
      Option.some.injEq]
    exact eq_comm
  · rw [hlongest, foldl_max_eq, List.map_map]
    rfl
  · rw [hacknowledges, acknowledgement_mem_copying_iff]

/-- Taking over all entries is uniting. -/
theorem TakesOver.isUnion
    (htakes : vocabulary.TakesOver other other.prefixOrder other.unitOrder result)
    (hvocabulary : vocabulary.WellFormed) (hother : other.WellFormed) (hresult : result.WellFormed)
    (hprefixFree : ∀ symbol ∈ other.prefixOrder, vocabulary.findPrefix symbol = none)
    (hunitFree : ∀ symbol ∈ other.unitOrder, vocabulary.findUnit symbol = none) :
    vocabulary.IsUnion other result := by
  have hfindUnit : ∀ symbol, result.findUnit symbol =
      (vocabulary.findUnit symbol).or (other.findUnit symbol) := by
    intro symbol
    rw [htakes.findUnit_eq]
    split
    · next hmem => rw [hunitFree symbol hmem, Option.none_or]
    · next hmem =>
      rw [hother.mem_unitOrder_iff, ← Option.isSome_iff_exists, Option.not_isSome_iff_eq_none]
        at hmem
      rw [hmem, Option.or_none]
  have hsymbolsIn : ∀ category, result.symbolsIn category =
      vocabulary.symbolsIn category ++ other.symbolsIn category := by
    intro category
    rw [htakes.symbolsIn_eq, hother.symbolsIn_eq]
  refine ⟨htakes.prefixOrder_eq, htakes.unitOrder_eq, fun symbol ↦ ?_, hfindUnit, hsymbolsIn,
    fun category ↦ ?_, fun category ↦ ?_, ?_, htakes.acknowledges_iff⟩
  · rw [htakes.findPrefix_eq]
    split
    · next hmem => rw [hprefixFree symbol hmem, Option.none_or]
    · next hmem =>
      rw [hother.mem_prefixOrder_iff, ← Option.isSome_iff_exists, Option.not_isSome_iff_eq_none]
        at hmem
      rw [hmem, Option.or_none]
  · rw [unitsIn, hsymbolsIn, List.map_append]
    congr 1
    · refine List.map_congr_left fun symbol hsymbol ↦ ?_
      obtain ⟨entry, hfind⟩ := hvocabulary.exists_findUnit_of_mem_symbolsIn hsymbol
      rw [hfindUnit, hfind, Option.some_or]
    · refine List.map_congr_left fun symbol hsymbol ↦ ?_
      rw [hother.symbolsIn_eq, List.mem_filter] at hsymbol
      rw [hfindUnit, hunitFree symbol hsymbol.1, Option.none_or]
  · rw [hresult.mem_categories_iff, hvocabulary.mem_categories_iff, hother.mem_categories_iff,
      hsymbolsIn, Ne, List.append_eq_nil_iff, not_and_or]
  · rw [htakes.longestPrefix_eq, hother.longestPrefix_eq]

end

/-! ### Where seeding stops -/

theorem declareAll_cons_of_refused {vocabulary : Vocabulary} {declaration : Declaration}
    {error : RegistrationError} (hrefused : vocabulary.declare declaration = .error error)
    (rest : List Declaration) :
    vocabulary.declareAll (declaration :: rest) = (vocabulary, some error) := by
  rw [declareAll, attempt, hrefused]

/-- Seeding stops at a declaration that is refused after all those before it. -/
theorem seed_eq_error {vocabulary other middle : Vocabulary} {before after : List Declaration}
    {declaration : Declaration} {error : RegistrationError}
    (hdeclarations : other.declarations = before ++ declaration :: after)
    (hbefore : vocabulary.declareAll before = (middle, none))
    (hrefused : middle.declare declaration = .error error) :
    vocabulary.seed other = (middle, some error) := by
  rw [seed, hdeclarations, declareAll_append hbefore, declareAll_cons_of_refused hrefused]

theorem checkEntry_of_taken {kind : EntryKind} {symbol : Text} {scale : Float}
    (hvalid : symbol ≠ [] ∧ ValidScale scale) :
    checkEntry kind symbol scale true = .error (.duplicateSymbol kind symbol) := by
  rw [checkEntry, if_neg hvalid.1, if_neg (not_not.mpr hvalid.2), if_pos rfl]

theorem declare_prefixEntry_of_taken {vocabulary : Vocabulary} {entry : PrefixEntry}
    (hvalid : entry.symbol ≠ [] ∧ ValidScale entry.scale)
    (htaken : vocabulary.findPrefix entry.symbol ≠ none) :
    vocabulary.declare (.prefixEntry entry) =
      .error (.duplicateSymbol .prefixEntry entry.symbol) := by
  rw [declare, addPrefix, Option.isSome_iff_ne_none.mpr htaken, checkEntry_of_taken hvalid]
  rfl

theorem declare_unitEntry_of_taken {vocabulary : Vocabulary} {entry : UnitEntry}
    (hvalid : entry.symbol ≠ [] ∧ ValidScale entry.scale)
    (htaken : vocabulary.findUnit entry.symbol ≠ none) :
    vocabulary.declare (.unitEntry entry) = .error (.duplicateSymbol .unitEntry entry.symbol) := by
  rw [declare, addUnit, Option.isSome_iff_ne_none.mpr htaken, checkEntry_of_taken hvalid]
  rfl

/-- A unit is declared before its acknowledgement. -/
theorem exists_unitDeclarations_eq_cons (vocabulary : Vocabulary) (entry : UnitEntry) :
    ∃ acknowledgements, vocabulary.unitDeclarations entry =
      .unitEntry entry :: acknowledgements := by
  unfold unitDeclarations
  split <;> exact ⟨_, rfl⟩

/-- A symbol among those of entries is that of an entry between others. -/
theorem exists_entry_of_map_eq {α : Type} {symbolOf : α → Text} {entries : List α}
    {before after : List Text} {symbol : Text}
    (hsymbols : entries.map symbolOf = before ++ symbol :: after) :
    ∃ first entry last, entries = first ++ entry :: last ∧ first.map symbolOf = before ∧
      symbolOf entry = symbol := by
  obtain ⟨first, rest, hentries, hfirst, hrest⟩ := List.map_eq_append_iff.mp hsymbols
  obtain ⟨entry, last, rfl, hentry, _⟩ := List.map_eq_cons_iff.mp hrest
  exact ⟨first, entry, last, hentries, hfirst, hentry⟩

section

variable {vocabulary other : Vocabulary} (hother : other.WellFormed) {before after : List Text}
  {symbol : Text}

include hother

/-- Entries whose symbols are free are taken over. -/
theorem WellFormed.exists_takesOver {prefixes : List PrefixEntry} {units : List UnitEntry}
    (hprefixes : prefixes.Sublist other.prefixEntries) (hunits : units.Sublist other.unitEntries)
    (hprefixFree : ∀ free ∈ prefixes.map PrefixEntry.symbol, vocabulary.findPrefix free = none)
    (hunitFree : ∀ free ∈ units.map UnitEntry.symbol, vocabulary.findUnit free = none) :
    ∃ result, vocabulary.declareAll (other.copying prefixes units) = (result, none) ∧
      vocabulary.TakesOver other (prefixes.map PrefixEntry.symbol) (units.map UnitEntry.symbol)
        result := by
  rw [List.forall_mem_map] at hprefixFree hunitFree
  obtain ⟨result, hresult⟩ :=
    (hother.admits_copying hprefixes hunits hprefixFree hunitFree).exists_declareAll
  exact ⟨result, hresult, (appends_of_declareAll hresult).takesOver hother hprefixes.subset
    hunits.subset hprefixFree hunitFree⟩

/-- A prefix that is taken stops seeding, after the prefixes before it. -/
theorem WellFormed.seed_of_prefix_taken
    (horder : other.prefixOrder = before ++ symbol :: after)
    (hfree : ∀ earlier ∈ before, vocabulary.findPrefix earlier = none)
    (htaken : vocabulary.findPrefix symbol ≠ none) :
    ∃ result, vocabulary.seed other =
        (result, some (.duplicateSymbol .prefixEntry symbol)) ∧
      vocabulary.TakesOver other before [] result := by
  obtain ⟨first, entry, last, hentries, rfl, rfl⟩ :=
    exists_entry_of_map_eq (hother.map_symbol_prefixEntries.trans horder)
  have hfirst : first.Sublist other.prefixEntries := hentries ▸ List.sublist_append_left _ _
  obtain ⟨result, hresult, htakes⟩ :=
    hother.exists_takesOver hfirst (List.nil_sublist _) hfree (by simp)
  have hdeclarations : other.declarations = other.copying first [] ++ .prefixEntry entry ::
      (last.map .prefixEntry ++ other.unitEntries.flatMap other.unitDeclarations) := by
    simp [declarations, copying, hentries]
  refine ⟨result, seed_eq_error hdeclarations hresult ?_, htakes⟩
  have hentry : entry ∈ other.prefixEntries := by simp [hentries]
  have hnew : entry.symbol ∉ first.map PrefixEntry.symbol := fun hmem ↦ htaken (hfree _ hmem)
  refine declare_prefixEntry_of_taken
    (hother.prefix_valid _ _ (hother.findPrefix_eq_some_iff.mpr ⟨hentry, rfl⟩)).2 ?_
  rwa [htakes.findPrefix_eq, if_neg hnew]

/-- A unit that is taken stops seeding, after all prefixes and the units before it. -/
theorem WellFormed.seed_of_unit_taken
    (hprefixFree : ∀ earlier ∈ other.prefixOrder, vocabulary.findPrefix earlier = none)
    (horder : other.unitOrder = before ++ symbol :: after)
    (hfree : ∀ earlier ∈ before, vocabulary.findUnit earlier = none)
    (htaken : vocabulary.findUnit symbol ≠ none) :
    ∃ result, vocabulary.seed other = (result, some (.duplicateSymbol .unitEntry symbol)) ∧
      vocabulary.TakesOver other other.prefixOrder before result := by
  obtain ⟨first, entry, last, hentries, rfl, rfl⟩ :=
    exists_entry_of_map_eq (hother.map_symbol_unitEntries.trans horder)
  have hfirst : first.Sublist other.unitEntries := hentries ▸ List.sublist_append_left _ _
  rw [← hother.map_symbol_prefixEntries] at hprefixFree ⊢
  obtain ⟨result, hresult, htakes⟩ :=
    hother.exists_takesOver (List.Sublist.refl _) hfirst hprefixFree hfree
  obtain ⟨acknowledgements, hunit⟩ := exists_unitDeclarations_eq_cons other entry
  have hdeclarations : other.declarations = other.copying other.prefixEntries first ++
      .unitEntry entry :: (acknowledgements ++ last.flatMap other.unitDeclarations) := by
    simp [declarations, copying, hentries, hunit]
  refine ⟨result, seed_eq_error hdeclarations hresult ?_, htakes⟩
  have hentry : entry ∈ other.unitEntries := by simp [hentries]
  have hnew : entry.symbol ∉ first.map UnitEntry.symbol := fun hmem ↦ htaken (hfree _ hmem)
  refine declare_unitEntry_of_taken
    (hother.unit_valid _ _ (hother.findUnit_eq_some_iff.mpr ⟨hentry, rfl⟩)).2 ?_
  rwa [htakes.findUnit_eq, if_neg hnew]

/-- Without a symbol that is taken, seeding unites. -/
theorem WellFormed.seed_of_free (hvocabulary : vocabulary.WellFormed)
    (hprefixFree : ∀ symbol ∈ other.prefixOrder, vocabulary.findPrefix symbol = none)
    (hunitFree : ∀ symbol ∈ other.unitOrder, vocabulary.findUnit symbol = none) :
    ∃ result, vocabulary.seed other = (result, none) ∧ vocabulary.IsUnion other result := by
  obtain ⟨result, hresult, htakes⟩ :=
    hother.exists_takesOver (List.Sublist.refl _) (List.Sublist.refl _)
      (hother.map_symbol_prefixEntries ▸ hprefixFree) (hother.map_symbol_unitEntries ▸ hunitFree)
  rw [hother.map_symbol_prefixEntries, hother.map_symbol_unitEntries] at htakes
  exact ⟨result, hresult, htakes.isUnion hvocabulary hother (hvocabulary.declareAll hresult)
    hprefixFree hunitFree⟩

end

/-- A list has a property as a whole, or a first member lacks it. -/
theorem forall_or_exists_first {α : Type} (property : α → Prop) [DecidablePred property]
    (list : List α) : (∀ member ∈ list, property member) ∨
      ∃ before first after, list = before ++ first :: after ∧
        (∀ earlier ∈ before, property earlier) ∧ ¬ property first := by
  cases hfirst : list.find? fun member ↦ ¬ property member with
  | none => exact .inl (by simpa using hfirst)
  | some first =>
    obtain ⟨hlacks, before, after, rfl, hbefore⟩ := List.find?_eq_some_iff_append.mp hfirst
    exact .inr ⟨before, first, after, rfl, by simpa using hbefore, by simpa using hlacks⟩

/-- What can become of seeding, by the first symbol that is taken. -/
theorem WellFormed.seed_cases {vocabulary other : Vocabulary} (hvocabulary : vocabulary.WellFormed)
    (hother : other.WellFormed) :
    ((∀ symbol ∈ other.prefixOrder, vocabulary.findPrefix symbol = none) ∧
        (∀ symbol ∈ other.unitOrder, vocabulary.findUnit symbol = none) ∧
        ∃ result, vocabulary.seed other = (result, none) ∧ vocabulary.IsUnion other result) ∨
      ∃ before symbol after result error, vocabulary.seed other = (result, some error) ∧
        (other.prefixOrder = before ++ symbol :: after ∧
            (∀ earlier ∈ before, vocabulary.findPrefix earlier = none) ∧
            vocabulary.findPrefix symbol ≠ none ∧ error = .duplicateSymbol .prefixEntry symbol ∧
            vocabulary.TakesOver other before [] result ∨
          (∀ earlier ∈ other.prefixOrder, vocabulary.findPrefix earlier = none) ∧
            other.unitOrder = before ++ symbol :: after ∧
            (∀ earlier ∈ before, vocabulary.findUnit earlier = none) ∧
            vocabulary.findUnit symbol ≠ none ∧ error = .duplicateSymbol .unitEntry symbol ∧
            vocabulary.TakesOver other other.prefixOrder before result) := by
  rcases forall_or_exists_first (fun symbol ↦ vocabulary.findPrefix symbol = none)
    other.prefixOrder with hprefixFree | ⟨before, symbol, after, horder, hfree, htaken⟩
  · rcases forall_or_exists_first (fun symbol ↦ vocabulary.findUnit symbol = none)
      other.unitOrder with hunitFree | ⟨before, symbol, after, horder, hfree, htaken⟩
    · exact .inl ⟨hprefixFree, hunitFree, hother.seed_of_free hvocabulary hprefixFree hunitFree⟩
    · obtain ⟨result, hseed, htakes⟩ := hother.seed_of_unit_taken hprefixFree horder hfree htaken
      exact .inr ⟨before, symbol, after, result, _, hseed,
        .inr ⟨hprefixFree, horder, hfree, htaken, rfl, htakes⟩⟩
  · obtain ⟨result, hseed, htakes⟩ := hother.seed_of_prefix_taken horder hfree htaken
    exact .inr ⟨before, symbol, after, result, _, hseed,
      .inl ⟨horder, hfree, htaken, rfl, htakes⟩⟩

/-! ### Seeding while the source changes -/

/-- Makes declarations for one symbol after the other, up to the first that is refused. Which ones
they are is read from what was declared until then. -/
def declareFor (declarationsOf : Vocabulary → Text → List Declaration) (vocabulary : Vocabulary) :
    List Text → Vocabulary × Option RegistrationError
  | [] => (vocabulary, none)
  | symbol :: rest =>
    match vocabulary.declareAll (declarationsOf vocabulary symbol) with
    | (result, none) => result.declareFor declarationsOf rest
    | (result, some error) => (result, some error)

/-- The declaration that copies the prefix with a symbol. -/
def prefixCopy (vocabulary : Vocabulary) (symbol : Text) : List Declaration :=
  (vocabulary.findPrefix symbol).toList.map .prefixEntry

/-- The declarations that copy the unit with a symbol. -/
def unitCopy (vocabulary : Vocabulary) (symbol : Text) : List Declaration :=
  (vocabulary.findUnit symbol).toList.flatMap vocabulary.unitDeclarations

/-- Adds the entries of a source that is read anew for each of them: it may depend on what was
declared until then. -/
def seedReading (source : Vocabulary → Vocabulary) (vocabulary : Vocabulary) :
    Vocabulary × Option RegistrationError :=
  match vocabulary.declareFor (fun current ↦ (source current).prefixCopy)
    (source vocabulary).prefixOrder with
  | (result, none) => result.declareFor (fun current ↦ (source current).unitCopy)
      (source result).unitOrder
  | (result, some error) => (result, some error)

theorem declareAll_append_of_error {vocabulary middle : Vocabulary} {first : List Declaration}
    {error : RegistrationError} (hrefused : vocabulary.declareAll first = (middle, some error))
    (second : List Declaration) :
    vocabulary.declareAll (first ++ second) = (middle, some error) := by
  induction first generalizing vocabulary with
  | nil => cases hrefused
  | cons declaration rest ih =>
    rw [List.cons_append, declareAll_cons]
    rw [declareAll_cons] at hrefused
    cases hattempt : (vocabulary.attempt declaration).2 with
    | none => exact ih (by simpa only [hattempt] using hrefused)
    | some fault => simpa only [hattempt] using hrefused

theorem declareAll_append_eq (vocabulary : Vocabulary) (first second : List Declaration) :
    vocabulary.declareAll (first ++ second) =
      match vocabulary.declareAll first with
      | (result, none) => result.declareAll second
      | (result, some error) => (result, some error) := by
  split
  · next result hresult => exact declareAll_append hresult second
  · next result error hrefused => exact declareAll_append_of_error hrefused second

theorem declareFor_const (declarationsOf : Text → List Declaration) (vocabulary : Vocabulary)
    (symbols : List Text) :
    vocabulary.declareFor (fun _ ↦ declarationsOf) symbols =
      vocabulary.declareAll (symbols.flatMap declarationsOf) := by
  induction symbols generalizing vocabulary with
  | nil => rfl
  | cons symbol rest ih => simp only [declareFor, ih, List.flatMap_cons, declareAll_append_eq]

/-- Reading a source that does not change is seeding from it. -/
theorem seedReading_const (vocabulary other : Vocabulary) :
    vocabulary.seedReading (fun _ ↦ other) = vocabulary.seed other := by
  have hprefixes : other.prefixOrder.flatMap other.prefixCopy =
      other.prefixEntries.map .prefixEntry := by
    rw [prefixEntries, List.filterMap_eq_flatMap_toList, List.map_flatMap]
    rfl
  have hunits : other.unitOrder.flatMap other.unitCopy =
      other.unitEntries.flatMap other.unitDeclarations := by
    rw [unitEntries, List.filterMap_eq_flatMap_toList, List.flatMap_assoc]
    rfl
  rw [seed, declarations, declareAll_append_eq, seedReading, declareFor_const, hprefixes]
  simp only [declareFor_const, hunits]

section

variable {vocabulary : Vocabulary} (hvocabulary : vocabulary.WellFormed) {symbol : Text}

include hvocabulary

/-- A prefix is not copied where it is. -/
theorem WellFormed.declareAll_prefixCopy (hmem : symbol ∈ vocabulary.prefixOrder) :
    vocabulary.declareAll (vocabulary.prefixCopy symbol) =
      (vocabulary, some (.duplicateSymbol .prefixEntry symbol)) := by
  obtain ⟨entry, hfind⟩ := (hvocabulary.mem_prefixOrder_iff symbol).mp hmem
  obtain ⟨rfl, hvalid⟩ := hvocabulary.prefix_valid _ _ hfind
  have hrefused := declare_prefixEntry_of_taken hvalid (Option.ne_none_iff_exists'.mpr ⟨_, hfind⟩)
  simp [prefixCopy, hfind, declareAll_cons_of_refused hrefused]

/-- A unit is not copied where it is. -/
theorem WellFormed.declareAll_unitCopy (hmem : symbol ∈ vocabulary.unitOrder) :
    vocabulary.declareAll (vocabulary.unitCopy symbol) =
      (vocabulary, some (.duplicateSymbol .unitEntry symbol)) := by
  obtain ⟨entry, hfind⟩ := (hvocabulary.mem_unitOrder_iff symbol).mp hmem
  obtain ⟨rfl, hvalid⟩ := hvocabulary.unit_valid _ _ hfind
  have hrefused := declare_unitEntry_of_taken hvalid (Option.ne_none_iff_exists'.mpr ⟨_, hfind⟩)
  obtain ⟨acknowledgements, hunit⟩ := exists_unitDeclarations_eq_cons vocabulary entry
  simp [unitCopy, hfind, hunit, declareAll_cons_of_refused hrefused]

/-- A vocabulary that reads itself while it is seeded stops where a copy of it would stop it, before
anything is changed. -/
theorem WellFormed.seedReading_id :
    vocabulary.seedReading id = vocabulary.seed vocabulary ∧
      (vocabulary.seed vocabulary).1 = vocabulary := by
  rw [← seedReading_const]
  unfold seedReading
  -- the first entry of either kind is taken; the source is read for it before anything has changed
  cases hprefixes : vocabulary.prefixOrder with
  | cons symbol rest =>
    have hmem : symbol ∈ vocabulary.prefixOrder := by simp [hprefixes]
    have hrefused := hvocabulary.declareAll_prefixCopy hmem
    simp [declareFor, hprefixes, hrefused]
  | nil =>
    cases hunits : vocabulary.unitOrder with
    | cons symbol rest =>
      have hmem : symbol ∈ vocabulary.unitOrder := by simp [hunits]
      have hrefused := hvocabulary.declareAll_unitCopy hmem
      simp [declareFor, hprefixes, hunits, hrefused]
    | nil => simp [declareFor, hprefixes, hunits]

end

/-! ### The outcome of seeding -/

/-- Seeding one reachable vocabulary from another succeeds exactly when no prefix and no unit of the
other has a symbol that is taken, and leaves the entries of both. Otherwise it names the first
symbol that is taken, of the prefixes first and then of the units, and leaves what there was and
what the other has before that symbol. It is the same where the other is read anew for every entry,
and where the vocabulary itself is. -/
theorem Reachable.seed_spec {vocabulary other : Vocabulary} (hvocabulary : vocabulary.Reachable)
    (hother : other.Reachable) :
    ((vocabulary.seed other).2 = none ↔
      (∀ symbol ∈ other.prefixOrder, vocabulary.findPrefix symbol = none) ∧
        ∀ symbol ∈ other.unitOrder, vocabulary.findUnit symbol = none) ∧
    (∀ result, vocabulary.seed other = (result, none) → vocabulary.IsUnion other result) ∧
    (∀ result error, vocabulary.seed other = (result, some error) → ∃ before symbol after,
      other.prefixOrder = before ++ symbol :: after ∧
          (∀ earlier ∈ before, vocabulary.findPrefix earlier = none) ∧
          vocabulary.findPrefix symbol ≠ none ∧ error = .duplicateSymbol .prefixEntry symbol ∧
          vocabulary.TakesOver other before [] result ∨
        (∀ earlier ∈ other.prefixOrder, vocabulary.findPrefix earlier = none) ∧
          other.unitOrder = before ++ symbol :: after ∧
          (∀ earlier ∈ before, vocabulary.findUnit earlier = none) ∧
          vocabulary.findUnit symbol ≠ none ∧ error = .duplicateSymbol .unitEntry symbol ∧
          vocabulary.TakesOver other other.prefixOrder before result) ∧
    vocabulary.seedReading (fun _ ↦ other) = vocabulary.seed other ∧
    vocabulary.seedReading id = vocabulary.seed vocabulary ∧
    (vocabulary.seed vocabulary).1 = vocabulary := by
  refine and_assoc.mp (and_assoc.mp ⟨?_, seedReading_const vocabulary other,
    hvocabulary.wellFormed.seedReading_id⟩)
  rcases hvocabulary.wellFormed.seed_cases hother.wellFormed with
    ⟨hprefixFree, hunitFree, result, hseed, hunion⟩ |
    ⟨before, symbol, after, result, error, hseed, hstop⟩
  · rw [hseed]
    refine ⟨⟨iff_of_true rfl ⟨hprefixFree, hunitFree⟩, fun other hresult ↦ ?_⟩,
      fun other error hresult ↦ ?_⟩
    · cases hresult
      exact hunion
    · cases hresult
  · rw [hseed]
    refine ⟨⟨iff_of_false (Option.some_ne_none error) ?_, fun other hresult ↦ ?_⟩,
      fun other fault hresult ↦ ?_⟩
    · rintro ⟨hprefixFree, hunitFree⟩
      rcases hstop with ⟨horder, _, htaken, _⟩ | ⟨_, horder, _, htaken, _⟩
      · exact htaken (hprefixFree symbol (by simp [horder]))
      · exact htaken (hunitFree symbol (by simp [horder]))
    · cases hresult
    · cases hresult
      exact ⟨before, symbol, after, hstop⟩

/-- A vocabulary that has the byte between its other units. -/
def bandwidth : Vocabulary :=
  (empty.declareAll
    [.prefixEntry ⟨utf8 "k", 1000.0, utf8 "kilo"⟩,
      .unitEntry ⟨utf8 "s", 1.0, SI.Kind.time, utf8 "second", []⟩,
      .acknowledgement (utf8 "s"),
      .unitEntry ⟨utf8 "B", 1.0, .one, utf8 "byte", []⟩,
      .unitEntry ⟨utf8 "h", 3600.0, SI.Kind.time, utf8 "hour", []⟩]).1

theorem reachable_bandwidth : bandwidth.Reachable :=
  evolves_declareAll _ _

/-- The byte is there already: only what comes before it is taken over. -/
theorem seed_spec_bandwidth :
    kibibytes.Reachable ∧ bandwidth.Reachable ∧
      ∃ result, kibibytes.seed bandwidth =
          (result, some (.duplicateSymbol .unitEntry (utf8 "B"))) ∧
        result.unitOrder = [utf8 "B", utf8 "s"] ∧ result.prefixOrder = [utf8 "Ki", utf8 "k"] ∧
        ∃ before after, bandwidth.unitOrder = before ++ utf8 "B" :: after ∧
          kibibytes.TakesOver bandwidth bandwidth.prefixOrder before result := by
  have hseed : kibibytes.seed bandwidth = ((kibibytes.seed bandwidth).1,
      some (.duplicateSymbol .unitEntry (utf8 "B"))) := rfl
  obtain ⟨before, symbol, after, ⟨_, _, _, herror, _⟩ | ⟨_, horder, _, _, herror, htakes⟩⟩ :=
    (Reachable.seed_spec reachable_kibibytes reachable_bandwidth).2.2.1 _ _ hseed
  · cases herror
  · cases herror
    exact ⟨reachable_kibibytes, reachable_bandwidth, _, hseed, rfl, rfl, before, after, horder,
      htakes⟩

end Metrology.Vocabulary
