import Metrology.Proofs.Configuration.Declaring
import Metrology.SI.Kinds
import Metrology.Vocabulary.Shadowing

/-!
# New base dimensions

A configuration declares the unit of a base dimension under its own symbol, and the dimension is
named after the symbol. Symbols and identifiers of base dimensions are kept apart, so that a symbol
that no unit has may name a dimension that units already use. An expression has no base dimension
that its vocabulary does not use (`WellFormed.uses_of_parse`), and a configuration that declares
base dimensions gives each of them a unit (`Definition.Run.uses_cases`). The base dimension of a
declared unit is therefore new, unless the vocabulary used it before the configuration was read.
-/

set_option autoImplicit false
set_option relaxedAutoImplicit false

namespace Metrology

namespace Vocabulary

/-- The dimension of some unit has a base dimension. -/
def Uses (vocabulary : Vocabulary) (identifier : Text) : Prop :=
  ∃ unit, vocabulary.findUnit unit.symbol = some unit ∧ unit.dimension.exponent identifier ≠ 0

end Vocabulary

/-! ### Base dimensions of expressions -/

/-- A product has no base dimension that neither what it starts with nor one of its terms has. -/
theorem Meaning.exponent_product_eq_zero {identifier : Text} {left : Option ExactQuantity}
    {meanings : List Meaning} {value : ExactQuantity}
    (hleft : ∀ start ∈ left, start.exponent identifier = 0)
    (hreadings : ∀ meaning ∈ meanings, meaning.reading.dimension.exponent identifier = 0)
    (hproduct : product left meanings = some value) : value.exponent identifier = 0 := by
  induction meanings generalizing left with
  | nil => exact hleft value hproduct
  | cons meaning rest ih =>
    have hterm : meaning.term.exponent identifier = 0 := by
      show _ * meaning.reading.dimension.exponent identifier = 0
      rw [hreadings meaning (by simp), Int.mul_zero]
    refine ih (fun start hstart ↦ ?_)
      (fun other hother ↦ hreadings other (List.mem_cons_of_mem meaning hother)) hproduct
    cases hstart
    cases left with
    | none => exact hterm
    | some first =>
      have hfirst := hleft first rfl
      unfold Meaning.apply
      dsimp only
      split
      · show first.exponent identifier - meaning.term.exponent identifier = 0
        rw [hfirst, hterm, Int.sub_zero]
      · show first.exponent identifier + meaning.term.exponent identifier = 0
        rw [hfirst, hterm, Int.add_zero]

namespace Vocabulary

theorem WellFormed.uses_of_resolve {vocabulary : Vocabulary} (hvocabulary : vocabulary.WellFormed)
    {symbol identifier : Text} {reading : Reading}
    (hreading : vocabulary.resolve symbol = .ok reading)
    (hexponent : reading.dimension.exponent identifier ≠ 0) : vocabulary.Uses identifier := by
  cases hfind : vocabulary.findUnit symbol with
  | some unit =>
    obtain rfl := (hvocabulary.unit_valid symbol unit hfind).1
    rw [resolve_of_findUnit hfind, Except.ok.injEq] at hreading
    subst hreading
    exact ⟨unit, hfind, hexponent⟩
  | none =>
    obtain ⟨first, second, hsplits, _, rfl⟩ :=
      (hvocabulary.resolve_eq_ok_iff_of_findUnit_eq_none hfind).mp hreading
    exact ⟨second, hsplits.findUnit_eq, hexponent⟩

/-- An expression has no other base dimensions than those that the vocabulary uses. -/
theorem WellFormed.uses_of_parse {vocabulary : Vocabulary} (hvocabulary : vocabulary.WellFormed)
    {text identifier : Text} {quantity : Quantity} (hparse : vocabulary.parse text = .ok quantity)
    (hexponent : quantity.dimension.exponent identifier ≠ 0) : vocabulary.Uses identifier := by
  obtain ⟨_, _, number, meanings, _, _, _, hreadings, _, hproduct⟩ := parse_eq_ok_iff.mp hparse
  by_contra hunused
  refine hexponent (Meaning.exponent_product_eq_zero (fun start hstart ↦ ?_)
    (fun meaning hmeaning ↦ ?_) hproduct)
  · obtain ⟨value, _, rfl⟩ := Option.map_eq_some_iff.mp hstart
    rfl
  · by_contra hne
    exact hunused (hvocabulary.uses_of_resolve (hreadings meaning hmeaning) hne)

/-- After a declaration, the base dimensions in use are those before it and those of the declared
unit. -/
theorem uses_declare_cases {vocabulary result : Vocabulary} {declaration : Declaration}
    (haccepted : vocabulary.declare declaration = .ok result) {identifier : Text}
    (huses : result.Uses identifier) :
    vocabulary.Uses identifier ∨
      ∃ unit, declaration = .unitEntry unit ∧ unit.dimension.exponent identifier ≠ 0 := by
  obtain ⟨unit, hfind, hexponent⟩ := huses
  rcases (findUnit_declare_iff haccepted).mp hfind with hold | ⟨rfl, _⟩
  · exact .inl ⟨unit, hold, hexponent⟩
  · exact .inr ⟨unit, rfl, hexponent⟩

theorem Extends.uses {first second : Vocabulary} (hextends : first.Extends second)
    {identifier : Text} (huses : first.Uses identifier) : second.Uses identifier :=
  huses.imp fun _ ↦ And.imp_left hextends.findUnit_eq

end Vocabulary

namespace Definition

open Vocabulary

/-! ### Base dimensions of definitions -/

theorem declareAll_cons_eq_none_iff {vocabulary result : Vocabulary} {definition : Definition}
    {rest : List Definition} :
    declareAll vocabulary (definition :: rest) = (result, none) ↔
      ∃ next, definition.declareIn vocabulary = .ok next ∧
        declareAll next rest = (result, none) := by
  rw [declareAll]
  cases definition.declareIn vocabulary <;> simp

theorem declareAll_append_eq_none_iff {vocabulary result : Vocabulary}
    {first second : List Definition} :
    declareAll vocabulary (first ++ second) = (result, none) ↔
      ∃ middle, declareAll vocabulary first = (middle, none) ∧
        declareAll middle second = (result, none) := by
  induction first generalizing vocabulary with
  | nil => simp [declareAll]
  | cons definition rest ih =>
    simp only [List.cons_append, declareAll_cons_eq_none_iff, ih]
    constructor
    · rintro ⟨next, hnext, middle, hmiddle, hresult⟩
      exact ⟨middle, ⟨next, hnext, hmiddle⟩, hresult⟩
    · rintro ⟨middle, ⟨next, hnext, hmiddle⟩, hresult⟩
      exact ⟨next, hnext, middle, hmiddle, hresult⟩

variable {vocabulary : Vocabulary} {definition : Definition}

/-- A declared unit has the base dimension named after it, or those of an expression. -/
theorem Declares.uses_cases {unit : UnitEntry} {identifier : Text}
    (hdeclares : definition.Declares vocabulary (.unitEntry unit))
    (hvocabulary : vocabulary.WellFormed) (hexponent : unit.dimension.exponent identifier ≠ 0) :
    vocabulary.Uses identifier ∨ identifier = unit.symbol := by
  cases hdeclares with
  | base hsymbol hentries =>
    have hmem := Dimension.mem_identifiers_iff.mpr hexponent
    rw [Dimension.identifiers, hentries] at hmem
    exact .inr (List.mem_singleton.mp hmem)
  | expression _ hparse => exact .inl (hvocabulary.uses_of_parse hparse hexponent)

/-- A run brings no base dimension into use without giving it a unit of its own. -/
theorem Run.uses_cases {definitions : List Definition} {declared : List Declaration}
    {result : Vocabulary} {outcome : Option Error} {identifier : Text}
    (hrun : Run vocabulary definitions declared result outcome)
    (hvocabulary : vocabulary.WellFormed) (huses : result.Uses identifier) :
    vocabulary.Uses identifier ∨ ∃ unit, result.findUnit identifier = some unit := by
  induction hrun with
  | done => exact .inl huses
  | failed => exact .inl huses
  | @step vocabulary next result _ _ declaration declared _ hdeclares haccepted hrest ih =>
    rcases ih (hvocabulary.declare haccepted) huses with hnext | hunit
    · rcases uses_declare_cases haccepted hnext with hold | ⟨unit, rfl, hexponent⟩
      · exact .inl hold
      · rcases hdeclares.uses_cases hvocabulary hexponent with hold | rfl
        · exact .inl hold
        · have hlater := grows_declareAll next declared
          rw [hrest.declareAll_eq] at hlater
          exact .inr ⟨unit, hlater.extends.findUnit_eq
            ((findUnit_declare_iff haccepted).mpr (.inr ⟨rfl, rfl⟩))⟩
    · exact .inr hunit

end Definition

/-- In every reachable vocabulary that a configuration extends without error, every definition of a
unit by the word for a new base dimension makes one unit of a dimension that is named after its
symbol, which no unit had before. The definitions before it bring that base dimension into use only
where the vocabulary used it from the start. Otherwise the dimension is new: no expression over what
was declared before has it. -/
theorem Vocabulary.Reachable.baseWord_spec {vocabulary result : Vocabulary}
    (hreachable : vocabulary.Reachable) {configuration : Configuration}
    (hsuccess : configuration.declareSymbols vocabulary = (result, none))
    {before after : List Definition} {symbol : Text}
    (hdefinition : configuration.definitions =
      before ++ ⟨.unitEntry, symbol, utf8 "base"⟩ :: after) :
    ∃ table unit, Definition.declareAll vocabulary before = (table, none) ∧
      table.findUnit symbol = none ∧ result.findUnit symbol = some unit ∧ unit.scale = 1.0 ∧
      unit.dimension.entries = [(symbol, 1)] ∧ (table.Uses symbol ↔ vocabulary.Uses symbol) ∧
      (¬ vocabulary.Uses symbol → ∀ text quantity, table.parse text = .ok quantity →
        quantity.dimension ≠ unit.dimension) := by
  have hvocabulary := hreachable.wellFormed
  rw [Configuration.declareSymbols, hdefinition] at hsuccess
  obtain ⟨table, hbefore, hrest⟩ := Definition.declareAll_append_eq_none_iff.mp hsuccess
  obtain ⟨next, hnext, hafter⟩ := Definition.declareAll_cons_eq_none_iff.mp hrest
  obtain ⟨declaration, hdeclares, haccepted⟩ := Definition.declareIn_eq_ok_iff.mp hnext
  have hgrows := grows_declareDefinitions vocabulary before
  have hgrows' := grows_declareDefinitions next after
  rw [hbefore] at hgrows
  rw [hafter] at hgrows'
  cases hdeclares with
  | expression ne_base _ => exact absurd rfl ne_base
  | @base _ dimension hsymbol hentries =>
    obtain ⟨⟨_, _, hfree⟩, _⟩ := (declare_eq_ok_iff table).mp haccepted
    have hsame : table.Uses symbol → vocabulary.Uses symbol := by
      intro huses
      obtain ⟨declared, hrun⟩ := Definition.exists_run vocabulary before
      rw [hbefore] at hrun
      refine (hrun.uses_cases hvocabulary huses).resolve_right ?_
      rintro ⟨unit, hfind⟩
      cases hfree.symm.trans hfind
    have hone : dimension.exponent symbol = 1 :=
      Dimension.exponent_of_mem (hentries ▸ List.mem_singleton_self _)
    refine ⟨table, ⟨symbol, 1.0, dimension, symbol, utf8 "custom"⟩, hbefore, hfree,
      hgrows'.extends.findUnit_eq ((findUnit_declare_iff haccepted).mpr (.inr ⟨rfl, rfl⟩)), rfl,
      hentries, ⟨hsame, hgrows.extends.uses⟩, fun hunused text quantity hparse heq ↦ ?_⟩
    refine hunused (hsame ((hgrows.wellFormed hvocabulary).uses_of_parse hparse ?_))
    rw [heq, hone]
    decide

/-- A byte, and what is counted in bytes. -/
def storage : Configuration :=
  [⟨utf8 "units", utf8 "B", utf8 "base"⟩,
    ⟨utf8 "units", utf8 "block", utf8 "512 B"⟩].foldl Configuration.put .empty

theorem baseWord_spec_byte :
    Vocabulary.empty.Reachable ∧ ∃ result table unit,
      storage.declareSymbols .empty = (result, none) ∧
      storage.definitions =
        [] ++ ⟨.unitEntry, utf8 "B", utf8 "base"⟩ :: [⟨.unitEntry, utf8 "block", utf8 "512 B"⟩] ∧
      Definition.declareAll .empty [] = (table, none) ∧ ¬ Vocabulary.empty.Uses (utf8 "B") ∧
      result.findUnit (utf8 "B") = some unit ∧ unit.dimension.entries = [(utf8 "B", 1)] ∧
      ∀ text quantity, table.parse text = .ok quantity → quantity.dimension ≠ unit.dimension := by
  have hreachable : Vocabulary.empty.Reachable := .refl _
  have hnone : (storage.declareSymbols .empty).2 = none := by decide +kernel
  have hsuccess : storage.declareSymbols .empty = ((storage.declareSymbols .empty).1, none) := by
    rw [← hnone]
  have hdefinitions : storage.definitions =
      [] ++ ⟨.unitEntry, utf8 "B", utf8 "base"⟩ :: [⟨.unitEntry, utf8 "block", utf8 "512 B"⟩] := by
    decide +kernel
  have hunused : ¬ Vocabulary.empty.Uses (utf8 "B") := by
    rintro ⟨unit, hfind, _⟩
    cases hfind
  obtain ⟨table, unit, htable, _, hunit, _, hentries, _, hnew⟩ :=
    Vocabulary.Reachable.baseWord_spec hreachable hsuccess hdefinitions
  exact ⟨hreachable, _, table, unit, hsuccess, hdefinitions, htable, hunused, hunit, hentries,
    hnew hunused⟩

/-- The kilogram and the prefix kilo. -/
def masses : Vocabulary :=
  (Vocabulary.empty.declareAll
    [.prefixEntry ⟨utf8 "k", 1000.0, utf8 "kilo"⟩,
      .unitEntry ⟨utf8 "kg", 1.0, SI.Kind.mass, utf8 "kilogram", []⟩]).1

/-- A name for a thousand kilograms, and a unit of a new base dimension that has the name of mass
among base dimensions. -/
def megagrams : Configuration :=
  [⟨utf8 "units", utf8 "kM", utf8 "1000 kg"⟩,
    ⟨utf8 "units", utf8 "M", utf8 "base"⟩].foldl Configuration.put .empty

/-- The unit of a declared base dimension may count mass, like the kilogram before it. The
vocabulary builds, as a thousand of it are as much as the unit whose symbol hides them. -/
theorem baseWord_mass :
    masses.Reachable ∧ ∃ result table kilogram unit,
      megagrams.declareSymbols masses = (result, none) ∧
      megagrams.definitions =
        [⟨.unitEntry, utf8 "kM", utf8 "1000 kg"⟩] ++ [⟨.unitEntry, utf8 "M", utf8 "base"⟩] ∧
      Definition.declareAll masses [⟨.unitEntry, utf8 "kM", utf8 "1000 kg"⟩] = (table, none) ∧
      table.findUnit (utf8 "kg") = some kilogram ∧ result.findUnit (utf8 "M") = some unit ∧
      kilogram.dimension.exponent (utf8 "M") ≠ 0 ∧ kilogram.dimension = unit.dimension ∧
      ∃ built, result.build = .ok built := by
  have hresult : (megagrams.declareSymbols masses).2 = none := by decide +kernel
  have htable :
      (Definition.declareAll masses [⟨.unitEntry, utf8 "kM", utf8 "1000 kg"⟩]).2 = none := by
    decide +kernel
  have hbuilds : (megagrams.declareSymbols masses).1.build.toBool := by decide +kernel
  obtain ⟨built, hbuilt⟩ : ∃ built, (megagrams.declareSymbols masses).1.build = .ok built := by
    cases hbuild : (megagrams.declareSymbols masses).1.build with
    | ok built => exact ⟨built, rfl⟩
    | error _ => rw [hbuild] at hbuilds; cases hbuilds
  exact ⟨Vocabulary.evolves_declareAll _ _, _, _,
    ⟨utf8 "kg", 1.0, SI.Kind.mass, utf8 "kilogram", []⟩,
    ⟨utf8 "M", 1.0, SI.Kind.mass, utf8 "M", utf8 "custom"⟩, by rw [← hresult], by decide +kernel,
    by rw [← htable], by decide +kernel, by decide +kernel, by decide +kernel, rfl, built, hbuilt⟩

end Metrology
