import Metrology.Proofs.Vocabulary.Agreement
import Metrology.Vocabulary.Rendering

/-!
# Copies of a vocabulary

Seeding an empty vocabulary from another copies its prefixes and units in their order
(`WellFormed.seed_empty`). Of the acknowledgements it copies those of units only: one that was given
for a symbol that is no unit yet is lost. Further declarations do the same to the copy as to the
original (`SameEntries.declareAll`), so going on from a copy comes to the same as going on from the
original where no acknowledgement is lost, and else it may be refused for a symbol that has lost its
acknowledgement (`buildWith_seed_spec`).
-/

set_option autoImplicit false
set_option relaxedAutoImplicit false

namespace Metrology.Vocabulary

open Declaration Fallible

/-! ### Vocabularies that differ in their acknowledgements at most -/

/-- A vocabulary with other acknowledgements. -/
def withAcknowledged (vocabulary : Vocabulary) (symbols : List Text) : Vocabulary :=
  { vocabulary with acknowledged := symbols }

/-- Two vocabularies have the same units and the same prefixes, declared in the same order. -/
def SameEntries (first second : Vocabulary) : Prop :=
  ∃ symbols, first = second.withAcknowledged symbols

/-- Nothing that can be asked of two vocabularies tells them apart. -/
structure SameAnswers (first second : Vocabulary) : Prop where
  unitOrder_eq : first.unitOrder = second.unitOrder
  prefixOrder_eq : first.prefixOrder = second.prefixOrder
  longestPrefix_eq : first.longestPrefix = second.longestPrefix
  categories_eq : first.categories = second.categories
  unitsIn_eq : ∀ category, first.unitsIn category = second.unitsIn category
  findUnit_eq : ∀ symbol, first.findUnit symbol = second.findUnit symbol
  findPrefix_eq : ∀ symbol, first.findPrefix symbol = second.findPrefix symbol
  acknowledges_iff : ∀ symbol, first.Acknowledges symbol ↔ second.Acknowledges symbol
  decompositions_eq : ∀ symbol, first.decompositions symbol = second.decompositions symbol
  resolve_eq : ∀ symbol, first.resolve symbol = second.resolve symbol
  coherentUnit_eq : ∀ identifier, first.coherentUnit identifier = second.coherentUnit identifier
  render_eq : ∀ dimension, first.render dimension = second.render dimension
  listing_eq : first.listing = second.listing
  parse_eq : ∀ text, first.parse text = second.parse text

/-- Vocabularies with the same entries in the same order differ in their acknowledgements at
most. -/
theorem WellFormed.sameEntries {first second : Vocabulary} (hfirst : first.WellFormed)
    (hsecond : second.WellFormed) (hunitOrder : first.unitOrder = second.unitOrder)
    (hprefixOrder : first.prefixOrder = second.prefixOrder)
    (hfindUnit : ∀ symbol, first.findUnit symbol = second.findUnit symbol)
    (hfindPrefix : ∀ symbol, first.findPrefix symbol = second.findPrefix symbol) :
    first.SameEntries second := by
  have hunits : first.units = second.units := Index.ext_find? hfindUnit
  have hprefixes : first.prefixes = second.prefixes := Index.ext_find? hfindPrefix
  have hlongest : first.longestPrefix = second.longestPrefix := by
    rw [hfirst.longestPrefix_eq, hsecond.longestPrefix_eq, hprefixOrder]
  have hsymbols : ∀ category, first.symbolsIn category = second.symbolsIn category := by
    intro category
    rw [hfirst.symbolsIn_eq, hsecond.symbolsIn_eq, hunitOrder]
    refine List.filter_congr fun symbol _ ↦ ?_
    rw [decide_eq_decide, IsUnitIn, IsUnitIn, hfindUnit]
  have hgroups : first.groups = second.groups := by
    refine Index.ext_find? fun category ↦ ?_
    have heq := hsymbols category
    have hsome := hfirst.group_ne_nil category
    have hsome' := hsecond.group_ne_nil category
    unfold symbolsIn at heq
    -- no list of a category is empty, so the lists tell which categories there are
    cases hfind : first.groups.find? category <;> cases hfind' : second.groups.find? category <;>
      simp_all
  refine ⟨first.acknowledged, ?_⟩
  cases first
  cases second
  simp_all [withAcknowledged]

section Acknowledgements

variable (vocabulary : Vocabulary) (symbols : List Text)

theorem findCoherent_withAcknowledged (identifier : Text) (order : List Text) :
    (vocabulary.withAcknowledged symbols).findCoherent identifier order =
      vocabulary.findCoherent identifier order := by
  induction order with
  | nil => rfl
  | cons symbol rest ih =>
    rw [findCoherent, findCoherent, ih]
    rfl

theorem coherentUnit_withAcknowledged :
    (vocabulary.withAcknowledged symbols).coherentUnit = vocabulary.coherentUnit := by
  funext identifier
  rw [coherentUnit, coherentUnit, findCoherent_withAcknowledged]
  rfl

theorem render_withAcknowledged :
    (vocabulary.withAcknowledged symbols).render = vocabulary.render := by
  have hpower : (vocabulary.withAcknowledged symbols).powerText = vocabulary.powerText := by
    funext dimension identifier
    rw [powerText, powerText, baseName, baseName, coherentUnit_withAcknowledged]
  funext dimension
  rw [render, render, hpower]

theorem listing_withAcknowledged :
    (vocabulary.withAcknowledged symbols).listing = vocabulary.listing := by
  have hunit : (vocabulary.withAcknowledged symbols).unitLine = vocabulary.unitLine := by
    funext entry
    rw [unitLine, unitLine, render_withAcknowledged]
  have hline : (vocabulary.withAcknowledged symbols).unitLineOf = vocabulary.unitLineOf := by
    funext symbol
    rw [unitLineOf, unitLineOf, hunit]
    rfl
  have hcategory : (vocabulary.withAcknowledged symbols).categoryListing =
      vocabulary.categoryListing := by
    funext category
    rw [categoryListing, categoryListing, hline]
    rfl
  rw [listing, listing, hcategory]
  rfl

/-- Acknowledgements do not matter for other declarations. -/
theorem declare_withAcknowledged (declaration : Declaration) :
    ∃ others, (vocabulary.withAcknowledged symbols).declare declaration =
      (vocabulary.declare declaration).map fun result ↦ result.withAcknowledged others := by
  cases declaration with
  | unitEntry entry =>
    refine ⟨symbols, ?_⟩
    show (checkEntry _ _ _ (vocabulary.findUnit entry.symbol).isSome).map _ =
      ((checkEntry _ _ _ (vocabulary.findUnit entry.symbol).isSome).map _).map _
    cases checkEntry _ _ _ _ <;> rfl
  | prefixEntry entry =>
    refine ⟨symbols, ?_⟩
    show (checkEntry _ _ _ (vocabulary.findPrefix entry.symbol).isSome).map _ =
      ((checkEntry _ _ _ (vocabulary.findPrefix entry.symbol).isSome).map _).map _
    cases checkEntry _ _ _ _ <;> rfl
  | acknowledgement symbol => exact ⟨symbols.insert symbol, rfl⟩

end Acknowledgements

theorem declareAll_cons (vocabulary : Vocabulary) (declaration : Declaration)
    (rest : List Declaration) :
    vocabulary.declareAll (declaration :: rest) =
      match (vocabulary.attempt declaration).2 with
      | none => (vocabulary.attempt declaration).1.declareAll rest
      | some error => ((vocabulary.attempt declaration).1, some error) := by
  rw [declareAll]
  split
  · next result hattempt => rw [hattempt]
  · next result error hattempt => rw [hattempt]

namespace SameEntries

variable {first second : Vocabulary} (hsame : first.SameEntries second)

include hsame

theorem symm : second.SameEntries first := by
  obtain ⟨symbols, rfl⟩ := hsame
  exact ⟨second.acknowledged, rfl⟩

theorem sameAnswers (hacknowledges : ∀ symbol, first.Acknowledges symbol ↔
    second.Acknowledges symbol) : first.SameAnswers second := by
  obtain ⟨symbols, rfl⟩ := hsame
  exact ⟨rfl, rfl, rfl, rfl, fun _ ↦ rfl, fun _ ↦ rfl, fun _ ↦ rfl, hacknowledges, fun _ ↦ rfl,
    fun _ ↦ rfl, congrFun (coherentUnit_withAcknowledged second symbols),
    congrFun (render_withAcknowledged second symbols), listing_withAcknowledged second symbols,
    parse_congr fun _ ↦ rfl⟩

/-- One declaration is accepted by both or refused by both for the same reason. -/
theorem attempt (declaration : Declaration) :
    (first.attempt declaration).2 = (second.attempt declaration).2 ∧
      (first.attempt declaration).1.SameEntries (second.attempt declaration).1 := by
  obtain ⟨symbols, rfl⟩ := hsame
  obtain ⟨others, hdeclare⟩ := declare_withAcknowledged second symbols declaration
  rw [Vocabulary.attempt, Vocabulary.attempt, hdeclare]
  cases second.declare declaration with
  | ok result => exact ⟨rfl, others, rfl⟩
  | error error => exact ⟨rfl, symbols, rfl⟩

theorem declareAll (declarations : List Declaration) :
    (first.declareAll declarations).2 = (second.declareAll declarations).2 ∧
      (first.declareAll declarations).1.SameEntries (second.declareAll declarations).1 := by
  induction declarations generalizing first second with
  | nil => exact ⟨rfl, hsame⟩
  | cons declaration rest ih =>
    obtain ⟨herror, hnext⟩ := hsame.attempt declaration
    rw [declareAll_cons, declareAll_cons, herror]
    cases (second.attempt declaration).2 with
    | none => exact ih hnext
    | some error => exact ⟨rfl, hnext⟩

/-- The same readings are hidden where nothing else is acknowledged. -/
theorem hidesReading_of {symbol : Text}
    (hacknowledges : second.Acknowledges symbol → first.Acknowledges symbol)
    (hhides : first.HidesReading symbol) : second.HidesReading symbol := by
  obtain ⟨symbols, rfl⟩ := hsame
  obtain ⟨entry, start, rest, hfind, hacknowledged, hsplits, hconflict⟩ := hhides
  exact ⟨entry, start, rest, hfind, hacknowledged ∘ hacknowledges,
    ⟨hsplits.findPrefix_eq, hsplits.findUnit_eq, hsplits.eq_append⟩, hconflict⟩

theorem shadowing?_eq (hacknowledges : ∀ symbol, first.Acknowledges symbol ↔
    second.Acknowledges symbol) : first.shadowing? = second.shadowing? := by
  obtain ⟨symbols, rfl⟩ := hsame
  funext entry
  have hiff := hacknowledges entry.symbol
  unfold shadowing?
  by_cases hacknowledged : second.Acknowledges entry.symbol
  · rw [if_pos hacknowledged, if_pos (hiff.mpr hacknowledged)]
  · rw [if_neg hacknowledged, if_neg (mt hiff.mp hacknowledged)]
    rfl

end SameEntries

/-! ### Copies -/

/-- The declarations that copy prefixes, and then units with the acknowledgements that a vocabulary
has for them. -/
def copying (vocabulary : Vocabulary) (prefixes : List PrefixEntry) (units : List UnitEntry) :
    List Declaration :=
  prefixes.map .prefixEntry ++ units.flatMap vocabulary.unitDeclarations

section Copying

variable (vocabulary : Vocabulary) (prefixes : List PrefixEntry) (units : List UnitEntry)

theorem unitsOf_copying : unitsOf (vocabulary.copying prefixes units) = units := by
  have hunit : ∀ entry, (vocabulary.unitDeclarations entry).filterMap unit? = [entry] := by
    intro entry
    unfold unitDeclarations
    split <;> rfl
  have hprefixes : unitsOf (prefixes.map .prefixEntry) = [] := by
    simp [unitsOf, unit?]
  rw [copying, unitsOf_append, hprefixes, List.nil_append, unitsOf, List.filterMap_flatMap]
  simp only [hunit, List.flatMap_singleton']

theorem prefixesOf_copying : prefixesOf (vocabulary.copying prefixes units) = prefixes := by
  have hunit : ∀ entry, (vocabulary.unitDeclarations entry).filterMap prefix? = [] := by
    intro entry
    unfold unitDeclarations
    split <;> rfl
  have hprefixes : prefixesOf (prefixes.map .prefixEntry) = prefixes := by
    rw [prefixesOf, List.filterMap_map]
    exact List.filterMap_some
  rw [copying, prefixesOf_append, hprefixes, prefixesOf, List.filterMap_flatMap]
  simp [hunit]

/-- Acknowledgements are copied with the units that they are about. -/
theorem acknowledgement_mem_copying_iff {symbol : Text} :
    .acknowledgement symbol ∈ vocabulary.copying prefixes units ↔
      vocabulary.Acknowledges symbol ∧ symbol ∈ units.map UnitEntry.symbol := by
  have hunit : ∀ entry, .acknowledgement symbol ∈ vocabulary.unitDeclarations entry ↔
      vocabulary.Acknowledges symbol ∧ entry.symbol = symbol := by
    intro entry
    unfold unitDeclarations
    by_cases hacknowledged : vocabulary.Acknowledges entry.symbol
    · rw [if_pos hacknowledged]
      constructor
      · intro hmem
        cases hmem with
        | tail _ hmem =>
          cases List.mem_singleton.mp hmem
          exact ⟨hacknowledged, rfl⟩
      · rintro ⟨_, rfl⟩
        simp
    · rw [if_neg hacknowledged]
      constructor
      · intro hmem
        cases List.mem_singleton.mp hmem
      · rintro ⟨hother, rfl⟩
        exact absurd hother hacknowledged
  rw [copying, List.mem_append, List.mem_flatMap]
  constructor
  · rintro (hmem | ⟨entry, hentry, hmem⟩)
    · obtain ⟨entry, _, heq⟩ := List.mem_map.mp hmem
      cases heq
    · obtain ⟨hacknowledged, rfl⟩ := (hunit entry).mp hmem
      exact ⟨hacknowledged, List.mem_map_of_mem hentry⟩
  · rintro ⟨hacknowledged, hsymbol⟩
    obtain ⟨entry, hentry, rfl⟩ := List.mem_map.mp hsymbol
    exact .inr ⟨entry, hentry, (hunit entry).mpr ⟨hacknowledged, rfl⟩⟩

end Copying

namespace WellFormed

variable {vocabulary : Vocabulary} (hvocabulary : vocabulary.WellFormed)

include hvocabulary

theorem isValid_of_mem_copying {prefixes : List PrefixEntry} {units : List UnitEntry}
    (hprefixes : prefixes ⊆ vocabulary.prefixEntries) (hunits : units ⊆ vocabulary.unitEntries)
    {declaration : Declaration} (hmem : declaration ∈ vocabulary.copying prefixes units) :
    declaration.IsValid := by
  rcases List.mem_append.mp hmem with hfirst | hunit
  · obtain ⟨entry, hentry, rfl⟩ := List.mem_map.mp hfirst
    have hfind := hvocabulary.findPrefix_eq_some_iff.mpr ⟨hprefixes hentry, rfl⟩
    exact (hvocabulary.prefix_valid _ _ hfind).2
  · obtain ⟨entry, hentry, hmem⟩ := List.mem_flatMap.mp hunit
    have hfind := hvocabulary.findUnit_eq_some_iff.mpr ⟨hunits hentry, rfl⟩
    have hvalid := (hvocabulary.unit_valid _ _ hfind).2
    unfold unitDeclarations at hmem
    split at hmem
    · rcases List.mem_pair.mp hmem with rfl | rfl
      · exact hvalid
      · trivial
    · rw [List.mem_singleton.mp hmem]
      exact hvalid

/-- Another vocabulary admits copies of entries whose symbols are free in it. -/
theorem admits_copying {target : Vocabulary} {prefixes : List PrefixEntry} {units : List UnitEntry}
    (hprefixes : prefixes.Sublist vocabulary.prefixEntries)
    (hunits : units.Sublist vocabulary.unitEntries)
    (hprefixFree : ∀ entry ∈ prefixes, target.findPrefix entry.symbol = none)
    (hunitFree : ∀ entry ∈ units, target.findUnit entry.symbol = none) :
    target.Admits (vocabulary.copying prefixes units) where
  valid _ := hvocabulary.isValid_of_mem_copying hprefixes.subset hunits.subset
  nodup_units := by
    rw [unitsOf_copying]
    refine (hunits.map UnitEntry.symbol).nodup ?_
    rw [hvocabulary.map_symbol_unitEntries]
    exact hvocabulary.nodup_unitOrder
  nodup_prefixes := by
    rw [prefixesOf_copying]
    refine (hprefixes.map PrefixEntry.symbol).nodup ?_
    rw [hvocabulary.map_symbol_prefixEntries]
    exact hvocabulary.nodup_prefixOrder
  unit_free := by rwa [unitsOf_copying]
  prefix_free := by rwa [prefixesOf_copying]

/-- A copy has the units and prefixes of a vocabulary in their order, and the acknowledgements of
its units. -/
theorem seed_empty : ∃ copy, empty.seed vocabulary = (copy, none) ∧ copy.SameEntries vocabulary ∧
    ∀ symbol, copy.Acknowledges symbol ↔
      vocabulary.Acknowledges symbol ∧ ∃ entry, vocabulary.findUnit symbol = some entry := by
  have hadmits : empty.Admits vocabulary.declarations :=
    hvocabulary.admits_copying (List.Sublist.refl _) (List.Sublist.refl _) (fun _ _ ↦ rfl)
      fun _ _ ↦ rfl
  have hunits : unitsOf vocabulary.declarations = vocabulary.unitEntries := unitsOf_copying _ _ _
  have hprefixes : prefixesOf vocabulary.declarations = vocabulary.prefixEntries :=
    prefixesOf_copying _ _ _
  obtain ⟨copy, hcopy⟩ := hadmits.exists_declareAll
  have happends := appends_of_declareAll hcopy
  have hunitOrder : copy.unitOrder = vocabulary.unitOrder := by
    rw [happends.unitOrder_eq, hunits, hvocabulary.map_symbol_unitEntries]
    rfl
  have hprefixOrder : copy.prefixOrder = vocabulary.prefixOrder := by
    rw [happends.prefixOrder_eq, hprefixes, hvocabulary.map_symbol_prefixEntries]
    rfl
  refine ⟨copy, hcopy, (wellFormed_empty.declareAll hcopy).sameEntries hvocabulary hunitOrder
    hprefixOrder (fun symbol ↦ Option.ext fun entry ↦ ?_)
    (fun symbol ↦ Option.ext fun entry ↦ ?_), fun symbol ↦ ?_⟩
  · rw [happends.findUnit_iff_of_empty, hunits, hvocabulary.findUnit_eq_some_iff]
  · rw [happends.findPrefix_iff_of_empty, hprefixes, hvocabulary.findPrefix_eq_some_iff]
  · rw [happends.acknowledges_iff_of_empty, declarations, ← copying,
      acknowledgement_mem_copying_iff, hvocabulary.map_symbol_unitEntries,
      hvocabulary.mem_unitOrder_iff]

end WellFormed

/-! ### Going on from a copy -/

theorem declareAll_append {vocabulary middle : Vocabulary} {first : List Declaration}
    (haccepted : vocabulary.declareAll first = (middle, none)) (second : List Declaration) :
    vocabulary.declareAll (first ++ second) = middle.declareAll second := by
  induction first generalizing vocabulary with
  | nil =>
    cases haccepted
    rfl
  | cons declaration rest ih =>
    obtain ⟨next, hdeclare, hrest⟩ := declareAll_cons_eq_none_iff.mp haccepted
    rw [List.cons_append, declareAll_cons_of_declare hdeclare, ih hrest]

/-- Makes declarations and builds the vocabulary. -/
def buildWith (vocabulary : Vocabulary) (declarations : List Declaration) :
    Except Error Vocabulary :=
  match vocabulary.declareAll declarations with
  | (result, none) => result.build.mapError .expression
  | (_, some error) => .error (.registration error)

/-- Two ways of building end in the same error, or in vocabularies that nothing tells apart. -/
inductive SameOutcome : Except Error Vocabulary → Except Error Vocabulary → Prop
  | refused (error : Error) : SameOutcome (.error error) (.error error)
  | built {first second : Vocabulary} (same : first.SameAnswers second) :
    SameOutcome (.ok first) (.ok second)

/-- A symbol was acknowledged by declarations, none of which makes it a unit, and is not
acknowledged again by later ones. -/
def LosesAcknowledgement (first second : List Declaration) (symbol : Text) : Prop :=
  .acknowledgement symbol ∈ first ∧ (∀ entry ∈ unitsOf first, entry.symbol ≠ symbol) ∧
    .acknowledgement symbol ∉ second

/-- Two vocabularies with the same entries refuse the same declaration, or are both built after
all of them. -/
theorem SameEntries.buildWith_cases {first second : Vocabulary} (hsame : first.SameEntries second)
    (declarations : List Declaration) :
    (∃ error, first.buildWith declarations = .error (.registration error) ∧
        second.buildWith declarations = .error (.registration error)) ∨
      ∃ firstResult secondResult, first.declareAll declarations = (firstResult, none) ∧
        second.declareAll declarations = (secondResult, none) ∧
        firstResult.SameEntries secondResult ∧
        first.buildWith declarations = firstResult.build.mapError .expression ∧
        second.buildWith declarations = secondResult.build.mapError .expression := by
  obtain ⟨herror, hresult⟩ := hsame.declareAll declarations
  unfold buildWith
  generalize first.declareAll declarations = firstPair at herror hresult ⊢
  generalize second.declareAll declarations = secondPair at herror hresult ⊢
  obtain ⟨firstResult, firstError⟩ := firstPair
  obtain ⟨secondResult, secondError⟩ := secondPair
  obtain rfl : firstError = secondError := herror
  cases firstError with
  | some error => exact .inl ⟨error, rfl, rfl⟩
  | none => exact .inr ⟨_, _, rfl, rfl, hresult, rfl, rfl⟩

/-- Vocabularies with the same entries and acknowledgements are built or refused alike. -/
theorem SameEntries.sameOutcome_build {first second : Vocabulary} (hsame : first.SameEntries second)
    (hacknowledges : ∀ symbol, first.Acknowledges symbol ↔ second.Acknowledges symbol) :
    SameOutcome (first.build.mapError .expression) (second.build.mapError .expression) := by
  have hanswers := hsame.sameAnswers hacknowledges
  have hunits : first.unitEntries = second.unitEntries := by
    obtain ⟨symbols, rfl⟩ := hsame
    rfl
  rw [build, build, hsame.shadowing?_eq hacknowledges, hunits]
  cases second.unitEntries.findSome? second.shadowing? with
  | some fault => exact .refused _
  | none => exact .built hanswers

/-- With more acknowledgements, the same entries still build. -/
theorem SameEntries.build_eq_ok {first second built : Vocabulary} (hsame : first.SameEntries second)
    (hfirst : first.WellFormed) (hsecond : second.WellFormed)
    (hacknowledges : ∀ symbol, first.Acknowledges symbol → second.Acknowledges symbol)
    (hbuild : first.build = .ok built) : second.build = .ok second := by
  refine hsecond.build_eq_ok_iff.mpr ⟨fun symbol hhides ↦ ?_, rfl⟩
  exact (hfirst.build_eq_ok_iff.mp hbuild).1 symbol
    (hsame.symm.hidesReading_of (hacknowledges symbol) hhides)

/-- Entries that build with some acknowledgements are refused with others for a symbol that is not
acknowledged any more. -/
theorem SameEntries.build_eq_error {first second built : Vocabulary} {error : ExpressionError}
    (hsame : first.SameEntries second) (hfirst : first.WellFormed) (hsecond : second.WellFormed)
    (hbuild : second.build = .ok built) (hrefused : first.build = .error error) :
    ∃ symbol candidates, ¬ first.Acknowledges symbol ∧ second.Acknowledges symbol ∧
      error = ⟨.symbol (.ambiguous symbol candidates), [], 0⟩ := by
  obtain ⟨_, symbol, _, entry, _, _, hfind, hacknowledged, hconflicts, rfl⟩ :=
    hfirst.build_eq_error_iff.mp hrefused
  refine ⟨symbol, _, hacknowledged, Decidable.byContradiction fun hnot ↦ ?_, rfl⟩
  obtain ⟨reading, hreading⟩ := List.exists_mem_of_ne_nil _ hconflicts
  obtain ⟨start, rest, hsplits, _, hconflict⟩ := (hfirst.mem_conflicts_iff hfind).mp hreading
  exact (hsecond.build_eq_ok_iff.mp hbuild).1 symbol (hsame.hidesReading_of (absurd · hnot)
    ⟨entry, start, rest, hfind, hacknowledged, hsplits, hconflict⟩)

/-- After further declarations the original has the acknowledgements of the copy and those that are
lost. -/
theorem acknowledges_original_iff {first second : List Declaration}
    {original copy staged direct : Vocabulary}
    (hfirst : empty.declareAll first = (original, none))
    (hkept : ∀ symbol, copy.Acknowledges symbol ↔
      original.Acknowledges symbol ∧ ∃ entry, original.findUnit symbol = some entry)
    (hstaged : copy.declareAll second = (staged, none))
    (hdirect : original.declareAll second = (direct, none)) (symbol : Text) :
    (direct.Acknowledges symbol ↔
        staged.Acknowledges symbol ∨ LosesAcknowledgement first second symbol) ∧
      ¬ (staged.Acknowledges symbol ∧ LosesAcknowledgement first second symbol) := by
  have happends := appends_of_declareAll hfirst
  have hunit : (∃ entry, original.findUnit symbol = some entry) ↔
      ¬ ∀ entry ∈ unitsOf first, entry.symbol ≠ symbol := by
    simp only [happends.findUnit_iff_of_empty]
    simp
  rw [(appends_of_declareAll hdirect).acknowledges_iff,
    (appends_of_declareAll hstaged).acknowledges_iff, hkept, hunit,
    happends.acknowledges_iff_of_empty, LosesAcknowledgement]
  tauto

/-- Going on from a copy of a vocabulary, compared with going on from the vocabulary itself. Where
no acknowledgement is lost the outcome is the same. A declaration that is refused is refused both
ways. When the copy builds, so does the original, with the same entries, and with the
acknowledgements of the copy and those that are lost. When only the original builds, the copy is
refused for a symbol that has lost its acknowledgement. -/
theorem buildWith_seed_spec {first : List Declaration} {original table : Vocabulary}
    (hfirst : empty.declareAll first = (original, none)) (hbuild : original.build = .ok table) :
    ∃ copy, empty.seed table = (copy, none) ∧ ∀ second,
      ((∀ symbol, ¬ LosesAcknowledgement first second symbol) →
        SameOutcome (copy.buildWith second) (empty.buildWith (first ++ second))) ∧
      (∀ error, copy.buildWith second = .error (.registration error) ↔
        empty.buildWith (first ++ second) = .error (.registration error)) ∧
      (∀ staged, copy.buildWith second = .ok staged → ∃ direct,
        empty.buildWith (first ++ second) = .ok direct ∧ staged.SameEntries direct ∧
          ∀ symbol, (direct.Acknowledges symbol ↔
              staged.Acknowledges symbol ∨ LosesAcknowledgement first second symbol) ∧
            ¬ (staged.Acknowledges symbol ∧ LosesAcknowledgement first second symbol)) ∧
      ∀ direct error, empty.buildWith (first ++ second) = .ok direct →
        copy.buildWith second = .error error → ∃ symbol candidates,
          LosesAcknowledgement first second symbol ∧
            error = .expression ⟨.symbol (.ambiguous symbol candidates), [], 0⟩ := by
  have horiginal := wellFormed_empty.declareAll hfirst
  obtain ⟨_, rfl⟩ := horiginal.build_eq_ok_iff.mp hbuild
  obtain ⟨copy, hcopy, hsame, hkept⟩ := horiginal.seed_empty
  refine ⟨copy, hcopy, fun second ↦ ?_⟩
  have happend : empty.buildWith (first ++ second) = original.buildWith second := by
    rw [buildWith, declareAll_append hfirst, buildWith]
  rw [happend]
  rcases hsame.buildWith_cases second with
    ⟨error, hstaged, hdirect⟩ | ⟨staged, direct, hstaged, hdirect, hentries, hcopyBuild, hbuild⟩
  · rw [hstaged, hdirect]
    refine ⟨fun _ ↦ .refused _, fun _ ↦ Iff.rfl, fun built hbuilt ↦ ?_, fun built _ hbuilt ↦ ?_⟩
    · cases hbuilt
    · cases hbuilt
  · have hacknowledges := acknowledges_original_iff hfirst hkept hstaged hdirect
    have hstagedWellFormed := (wellFormed_empty.declareAll hcopy).declareAll hstaged
    have hdirectWellFormed := horiginal.declareAll hdirect
    rw [hcopyBuild, hbuild]
    refine ⟨fun hnone ↦ ?_, fun error ↦ ?_, fun built hbuilt ↦ ?_,
      fun built error hbuilt herror ↦ ?_⟩
    · exact hentries.sameOutcome_build fun symbol ↦
        ((hacknowledges symbol).1.trans (or_iff_left (hnone symbol))).symm
    · simp [mapError_eq_error_iff]
    · rw [mapError_eq_ok_iff] at hbuilt
      obtain ⟨_, rfl⟩ := hstagedWellFormed.build_eq_ok_iff.mp hbuilt
      refine ⟨direct, mapError_eq_ok_iff.mpr ?_, hentries, hacknowledges⟩
      exact hentries.build_eq_ok hstagedWellFormed hdirectWellFormed
        (fun symbol hkept ↦ (hacknowledges symbol).1.mpr (.inl hkept)) hbuilt
    · obtain ⟨fault, hfault, rfl⟩ := mapError_eq_error_iff.mp herror
      obtain ⟨symbol, candidates, hlost, hkept, rfl⟩ := hentries.build_eq_error hstagedWellFormed
        hdirectWellFormed (mapError_eq_ok_iff.mp hbuilt) hfault
      exact ⟨symbol, candidates, ((hacknowledges symbol).1.mp hkept).resolve_left hlost, rfl⟩

/-- A further unit and prefix. -/
def kilometre : List Declaration :=
  [.prefixEntry ⟨utf8 "k", 1000.0, utf8 "kilo"⟩,
    .unitEntry ⟨utf8 "m", 1.0, SI.Kind.length, utf8 "metre", []⟩]

theorem buildWith_seed_kilometre :
    ∃ original table copy, empty.declareAll acknowledgedCandela = (original, none) ∧
      original.build = .ok table ∧ empty.seed table = (copy, none) ∧
      SameOutcome (copy.buildWith kilometre)
        (empty.buildWith (acknowledgedCandela ++ kilometre)) := by
  have hfirst : empty.declareAll acknowledgedCandela =
      ((empty.declareAll acknowledgedCandela).1, none) := rfl
  have hbuild : ((empty.declareAll acknowledgedCandela).1).build =
      .ok (empty.declareAll acknowledgedCandela).1 := rfl
  obtain ⟨copy, hcopy, hspec⟩ := buildWith_seed_spec hfirst hbuild
  refine ⟨_, _, copy, hfirst, hbuild, hcopy, (hspec kilometre).1 ?_⟩
  -- the one acknowledgement is about a unit
  rintro symbol ⟨hacknowledged, hunit, _⟩
  obtain rfl : symbol = utf8 "cd" := by simpa [acknowledgedCandela] using hacknowledged
  exact hunit ⟨utf8 "cd", 1.0, SI.Kind.luminousIntensity, utf8 "candela", []⟩ (by decide) rfl

/-- An acknowledgement that comes before its unit and before the copy is lost: the candela is
refused, though the same declarations build without the copy. -/
theorem buildWith_seed_candela :
    ∃ original, empty.declareAll [.acknowledgement (utf8 "cd")] = (original, none) ∧
      original.build = .ok original ∧
      (∃ direct, empty.buildWith
        (.acknowledgement (utf8 "cd") :: acknowledgedCandela.take 3) = .ok direct) ∧
      ∃ copy, empty.seed original = (copy, none) ∧
        copy.buildWith (acknowledgedCandela.take 3) = .error (.expression
          ⟨.symbol (.ambiguous (utf8 "cd") [utf8 "cd", utf8 "c + d"]), [], 0⟩) :=
  ⟨_, rfl, rfl, ⟨_, rfl⟩, _, rfl, rfl⟩

end Metrology.Vocabulary
