import Metrology.Configuration.Declarations
import Metrology.Proofs.Fallible

/-!
# How vocabularies grow

A vocabulary is filled by declarations, one at a time, by seeding it from another and by the
definitions of a configuration. `Evolves` says that one state comes from another by any sequence of
these, each of which may be refused at any point; `Reachable` says it of a state that comes from the
vocabulary without symbols. Whatever was asked for, what happened is one accepted declaration after
the other (`Evolves.grows`), so a property that accepted declarations keep holds of all later states
(`Grows.preserves`).
-/

set_option autoImplicit false
set_option relaxedAutoImplicit false

namespace Metrology.Vocabulary

open Fallible

/-- A vocabulary comes from another by accepted declarations, one after the other. -/
inductive Grows : Vocabulary → Vocabulary → Prop
  | refl (vocabulary : Vocabulary) : Grows vocabulary vocabulary
  | step {first second third : Vocabulary} {declaration : Declaration} (grown : Grows first second)
      (accepted : second.declare declaration = .ok third) : Grows first third

/-- A vocabulary comes from another by any sequence of declarations, seedings and configurations,
accepted or refused. -/
inductive Evolves : Vocabulary → Vocabulary → Prop
  | refl (vocabulary : Vocabulary) : Evolves vocabulary vocabulary
  | attempt {first second : Vocabulary} (declaration : Declaration)
      (evolved : Evolves first second) : Evolves first (second.attempt declaration).1
  | seed {first second other : Vocabulary} (evolved : Evolves first second)
      (source : Evolves .empty other) : Evolves first (second.seed other).1
  | declareSymbols {first second : Vocabulary} (configuration : Configuration)
      (evolved : Evolves first second) : Evolves first (configuration.declareSymbols second).1

/-- A state that a vocabulary can come into. -/
def Reachable (vocabulary : Vocabulary) : Prop :=
  Evolves .empty vocabulary

theorem Grows.trans {first second third : Vocabulary} (hfirst : Grows first second)
    (hsecond : Grows second third) : Grows first third := by
  induction hsecond with
  | refl => exact hfirst
  | step _ accepted ih => exact .step ih accepted

/-- One declaration is accepted, or changes nothing. -/
theorem attempt_cases (vocabulary : Vocabulary) (declaration : Declaration) :
    (∃ result, vocabulary.declare declaration = .ok result ∧
        vocabulary.attempt declaration = (result, none)) ∨
      ∃ error, vocabulary.declare declaration = .error error ∧
        vocabulary.attempt declaration = (vocabulary, some error) := by
  unfold attempt
  cases hdeclare : vocabulary.declare declaration with
  | ok result => exact .inl ⟨result, rfl, rfl⟩
  | error error => exact .inr ⟨error, rfl, rfl⟩

theorem grows_attempt (vocabulary : Vocabulary) (declaration : Declaration) :
    Grows vocabulary (vocabulary.attempt declaration).1 := by
  rcases attempt_cases vocabulary declaration with ⟨result, haccepted, hattempt⟩ | ⟨_, _, hattempt⟩
  · rw [hattempt]
    exact .step (.refl vocabulary) haccepted
  · rw [hattempt]
    exact .refl vocabulary

theorem grows_declareAll (vocabulary : Vocabulary) (declarations : List Declaration) :
    Grows vocabulary (vocabulary.declareAll declarations).1 := by
  induction declarations generalizing vocabulary with
  | nil => exact .refl vocabulary
  | cons declaration rest ih =>
    have hgrows := grows_attempt vocabulary declaration
    unfold declareAll
    split
    · next result hattempt =>
      rw [hattempt] at hgrows
      exact hgrows.trans (ih result)
    · next result error hattempt =>
      rw [hattempt] at hgrows
      exact hgrows

theorem Evolves.trans {first second third : Vocabulary} (hfirst : Evolves first second)
    (hsecond : Evolves second third) : Evolves first third := by
  induction hsecond with
  | refl => exact hfirst
  | attempt declaration _ ih => exact (ih hfirst).attempt declaration
  | seed _ source ih _ => exact (ih hfirst).seed source
  | declareSymbols configuration _ ih => exact (ih hfirst).declareSymbols configuration

/-- Declarations up to the first that is refused are declarations one at a time. -/
theorem evolves_declareAll (vocabulary : Vocabulary) (declarations : List Declaration) :
    Evolves vocabulary (vocabulary.declareAll declarations).1 := by
  induction declarations generalizing vocabulary with
  | nil => exact .refl vocabulary
  | cons declaration rest ih =>
    have hevolves := (Evolves.refl vocabulary).attempt declaration
    unfold declareAll
    split
    · next result hattempt =>
      rw [hattempt] at hevolves
      exact hevolves.trans (ih result)
    · next result error hattempt =>
      rw [hattempt] at hevolves
      exact hevolves

/-- A definition that is accepted makes one declaration. -/
theorem exists_declare_of_declareIn {vocabulary result : Vocabulary} {definition : Definition}
    (haccepted : definition.declareIn vocabulary = .ok result) :
    ∃ declaration, vocabulary.declare declaration = .ok result := by
  obtain ⟨declaration, _, hdeclared⟩ := bind_eq_ok_iff.mp haccepted
  exact ⟨declaration, mapError_eq_ok_iff.mp hdeclared⟩

theorem grows_declareDefinitions (vocabulary : Vocabulary) (definitions : List Definition) :
    Grows vocabulary (Definition.declareAll vocabulary definitions).1 := by
  induction definitions generalizing vocabulary with
  | nil => exact .refl vocabulary
  | cons definition rest ih =>
    unfold Definition.declareAll
    split
    · next result haccepted =>
      obtain ⟨declaration, hdeclare⟩ := exists_declare_of_declareIn haccepted
      exact (Grows.step (.refl vocabulary) hdeclare).trans (ih result)
    · exact .refl vocabulary

/-- Whatever was asked for, what happened is one accepted declaration after the other. -/
theorem Evolves.grows {first second : Vocabulary} (hevolves : Evolves first second) :
    Grows first second := by
  induction hevolves with
  | refl vocabulary => exact .refl vocabulary
  | attempt declaration _ ih => exact ih.trans (grows_attempt _ declaration)
  | seed _ _ ih _ => exact ih.trans (grows_declareAll _ _)
  | declareSymbols configuration _ ih => exact ih.trans (grows_declareDefinitions _ _)

/-- What every accepted declaration keeps, growth keeps. -/
theorem Grows.preserves {property : Vocabulary → Prop}
    (hstep : ∀ {vocabulary result : Vocabulary} {declaration : Declaration},
      property vocabulary → vocabulary.declare declaration = .ok result → property result)
    {first second : Vocabulary} (hgrows : Grows first second) (hfirst : property first) :
    property second := by
  induction hgrows with
  | refl => exact hfirst
  | step _ accepted ih => exact hstep ih accepted

end Metrology.Vocabulary
