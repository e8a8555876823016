import Metrology.Proofs.Vocabulary.Appending

/-!
# Symbols declared by a configuration

The definitions of a configuration extend a vocabulary one after the other. What a definition stands
for depends on the vocabulary that those before it left: `Definition.Declares` is the declaration it
makes there, `Definition.Fails` the error when it makes none. `Definition.Run` is a run over
definitions, to their end or to the first error. A run adds the entries of the definitions that were
declared, in their order, and nothing of the one that failed or of those behind it.
-/

set_option autoImplicit false
set_option relaxedAutoImplicit false

namespace Metrology

open Fallible

/-! ### What expressions are read as -/

namespace Dimension

theorem base_eq_ok_iff {identifier : Text} {dimension : Dimension} :
    base identifier = .ok dimension ↔ identifier ≠ [] ∧ dimension.entries = [(identifier, 1)] := by
  by_cases hempty : identifier = []
  · simp [base, hempty]
  · obtain ⟨result, hresult⟩ : ∃ result, base identifier = .ok result := ⟨_, if_neg hempty⟩
    have hentries : result.entries = [(identifier, 1)] := by
      rw [base, if_neg hempty] at hresult
      cases hresult
      rfl
    rw [hresult, Except.ok.injEq, and_iff_right hempty]
    constructor
    · rintro rfl
      exact hentries
    · intro hother
      exact ext_entries (hentries.trans hother.symm)

theorem base_eq_error_iff {identifier : Text} {error : DimensionError} :
    base identifier = .error error ↔ identifier = [] ∧ error = .emptyIdentifier := by
  by_cases hempty : identifier = []
  · simp [base, hempty, eq_comm]
  · simp only [hempty, false_and, iff_false]
    rw [base, if_neg hempty]
    intro h
    cases h

end Dimension

namespace Quantity

theorem baseUnit_eq_ok_iff {identifier : Text} {quantity : Quantity} :
    baseUnit identifier = .ok quantity ↔
      identifier ≠ [] ∧ quantity.magnitude = 1.0 ∧
        quantity.dimension.entries = [(identifier, 1)] := by
  rw [baseUnit, map_eq_ok_iff]
  constructor
  · rintro ⟨dimension, hdimension, rfl⟩
    obtain ⟨hidentifier, hentries⟩ := Dimension.base_eq_ok_iff.mp hdimension
    exact ⟨hidentifier, rfl, hentries⟩
  · rintro ⟨hidentifier, hmagnitude, hentries⟩
    refine ⟨quantity.dimension, Dimension.base_eq_ok_iff.mpr ⟨hidentifier, hentries⟩, ?_⟩
    rw [← hmagnitude]

theorem baseUnit_eq_error_iff {identifier : Text} {error : DimensionError} :
    baseUnit identifier = .error error ↔ identifier = [] ∧ error = .emptyIdentifier := by
  rw [baseUnit, map_eq_error_iff, Dimension.base_eq_error_iff]

end Quantity

namespace Vocabulary

end Vocabulary

/-! ### One definition -/

namespace Definition

/-- A definition is read as an expression. The others are the word for a new base dimension. -/
def IsExpression (definition : Definition) : Prop :=
  definition.kind = .prefixEntry ∨ definition.text ≠ baseWord

/-- A definition makes a declaration in a vocabulary. -/
inductive Declares (vocabulary : Vocabulary) : Definition → Declaration → Prop
  /-- A prefix stands for the number that its text stands for. -/
  | factor {symbol text : Text} {magnitude : Float}
      (parse_eq : vocabulary.parse text = .ok ⟨magnitude, .one⟩) :
      Declares vocabulary ⟨.prefixEntry, symbol, text⟩
        (.prefixEntry ⟨symbol, magnitude, symbol⟩)
  /-- A base unit has a dimension of its own. -/
  | base {symbol : Text} {dimension : Dimension} (ne_nil : symbol ≠ [])
      (entries_eq : dimension.entries = [(symbol, 1)]) :
      Declares vocabulary ⟨.unitEntry, symbol, utf8 "base"⟩
        (.unitEntry ⟨symbol, 1.0, dimension, symbol, utf8 "custom"⟩)
  /-- Any other unit is the quantity that its text stands for. -/
  | expression {symbol text : Text} {quantity : Quantity} (ne_base : text ≠ utf8 "base")
      (parse_eq : vocabulary.parse text = .ok quantity) :
      Declares vocabulary ⟨.unitEntry, symbol, text⟩
        (.unitEntry ⟨symbol, quantity.magnitude, quantity.dimension, symbol, utf8 "custom"⟩)

/-- A definition makes no declaration in a vocabulary, or one that is refused. -/
inductive Fails (vocabulary : Vocabulary) : Definition → Error → Prop
  | unreadable {definition : Definition} {error : Error}
      (isExpression : definition.IsExpression)
      (parse_eq : vocabulary.parse definition.text = .error error) :
      Fails vocabulary definition error
  | dimensioned {symbol text : Text} {quantity : Quantity}
      (parse_eq : vocabulary.parse text = .ok quantity) (ne_one : quantity.dimension ≠ .one) :
      Fails vocabulary ⟨.prefixEntry, symbol, text⟩
        (.dimension (.mismatch (.expression text) .one quantity.dimension))
  | unnamed : Fails vocabulary ⟨.unitEntry, [], utf8 "base"⟩ (.dimension .emptyIdentifier)
  | refused {definition : Definition} {declaration : Declaration} {error : RegistrationError}
      (declares : definition.Declares vocabulary declaration)
      (declare_eq : vocabulary.declare declaration = .error error) :
      Fails vocabulary definition (.registration error)

variable {vocabulary : Vocabulary} {definition : Definition}

theorem declaration_eq_ok_iff {declaration : Declaration} :
    definition.declaration vocabulary = .ok declaration ↔
      definition.Declares vocabulary declaration := by
  constructor
  · obtain ⟨kind, symbol, text⟩ := definition
    unfold Definition.declaration
    intro hdeclaration
    split at hdeclaration
    · next hkind =>
      obtain rfl : kind = .prefixEntry := hkind
      obtain ⟨⟨magnitude, dimension⟩, hquantity, rfl⟩ := map_eq_ok_iff.mp hdeclaration
      obtain ⟨hparse, rfl⟩ := Vocabulary.parseAs_eq_ok_iff.mp hquantity
      exact .factor hparse
    · next hkind =>
      obtain rfl : kind = .unitEntry := hkind
      split at hdeclaration
      · next hbase =>
        obtain rfl : text = baseWord := hbase
        obtain ⟨⟨magnitude, dimension⟩, hquantity, rfl⟩ := map_eq_ok_iff.mp hdeclaration
        obtain ⟨hsymbol, rfl, hentries⟩ :=
          Quantity.baseUnit_eq_ok_iff.mp (mapError_eq_ok_iff.mp hquantity)
        exact .base hsymbol hentries
      · next hbase =>
        obtain ⟨quantity, hparse, rfl⟩ := map_eq_ok_iff.mp hdeclaration
        exact .expression hbase hparse
  · intro hdeclares
    cases hdeclares with
    | factor hparse =>
      exact map_eq_ok_iff.mpr ⟨_, Vocabulary.parseAs_eq_ok_iff.mpr ⟨hparse, rfl⟩, rfl⟩
    | base hsymbol hentries =>
      exact map_eq_ok_iff.mpr ⟨⟨1.0, _⟩, mapError_eq_ok_iff.mpr
        (Quantity.baseUnit_eq_ok_iff.mpr ⟨hsymbol, rfl, hentries⟩), rfl⟩
    | expression hbase hparse =>
      exact (if_neg hbase).trans (map_eq_ok_iff.mpr ⟨_, hparse, rfl⟩)

/-- The step of a run that goes on: a definition is declared. -/
theorem declareIn_eq_ok_iff {result : Vocabulary} :
    definition.declareIn vocabulary = .ok result ↔
      ∃ declaration, definition.Declares vocabulary declaration ∧
        vocabulary.declare declaration = .ok result := by
  rw [declareIn, bind_eq_ok_iff]
  exact exists_congr fun declaration ↦ and_congr declaration_eq_ok_iff mapError_eq_ok_iff

theorem fails_of_declaration_eq_error {error : Error}
    (herror : definition.declaration vocabulary = .error error) :
    definition.Fails vocabulary error := by
  obtain ⟨kind, symbol, text⟩ := definition
  unfold Definition.declaration at herror
  split at herror
  · next hkind =>
    obtain rfl : kind = .prefixEntry := hkind
    rcases Vocabulary.parseAs_eq_error_iff.mp (map_eq_error_iff.mp herror) with
      hparse | ⟨quantity, hparse, hdimension, rfl⟩
    · exact .unreadable (.inl rfl) hparse
    · exact .dimensioned hparse hdimension
  · next hkind =>
    obtain rfl : kind = .unitEntry := hkind
    split at herror
    · next hbase =>
      obtain rfl : text = baseWord := hbase
      obtain ⟨_, hbaseUnit, rfl⟩ := mapError_eq_error_iff.mp (map_eq_error_iff.mp herror)
      obtain ⟨rfl, rfl⟩ := Quantity.baseUnit_eq_error_iff.mp hbaseUnit
      exact .unnamed
    · next hbase => exact .unreadable (.inr hbase) (map_eq_error_iff.mp herror)

/-- The step of a run that ends it: a definition fails. -/
theorem fails_of_declareIn_eq_error {error : Error}
    (herror : definition.declareIn vocabulary = .error error) :
    definition.Fails vocabulary error := by
  rcases bind_eq_error_iff.mp herror with hdeclaration | ⟨declaration, hdeclaration, hrefused⟩
  · exact fails_of_declaration_eq_error hdeclaration
  · obtain ⟨error, hdeclare, rfl⟩ := mapError_eq_error_iff.mp hrefused
    exact .refused (declaration_eq_ok_iff.mp hdeclaration) hdeclare

/-! ### A run over definitions -/

/-- A run over definitions makes declarations, each in the vocabulary that those before it left, and
ends after the last definition or with the error of the first that fails. -/
inductive Run : Vocabulary → List Definition → List Declaration → Vocabulary → Option Error → Prop
  | done (vocabulary : Vocabulary) : Run vocabulary [] [] vocabulary none
  | failed {vocabulary : Vocabulary} {definition : Definition} {rest : List Definition}
      {error : Error} (fails : definition.Fails vocabulary error) :
      Run vocabulary (definition :: rest) [] vocabulary (some error)
  | step {vocabulary next result : Vocabulary} {definition : Definition}
      {definitions : List Definition} {declaration : Declaration} {declared : List Declaration}
      {outcome : Option Error} (declares : definition.Declares vocabulary declaration)
      (accepted : vocabulary.declare declaration = .ok next)
      (rest : Run next definitions declared result outcome) :
      Run vocabulary (definition :: definitions) (declaration :: declared) result outcome

theorem exists_run (vocabulary : Vocabulary) (definitions : List Definition) :
    ∃ declared, Run vocabulary definitions declared (declareAll vocabulary definitions).1
      (declareAll vocabulary definitions).2 := by
  induction definitions generalizing vocabulary with
  | nil => exact ⟨[], .done vocabulary⟩
  | cons definition rest ih =>
    unfold declareAll
    split
    · next next hnext =>
      obtain ⟨declaration, hdeclares, haccepted⟩ := declareIn_eq_ok_iff.mp hnext
      obtain ⟨declared, hrest⟩ := ih next
      exact ⟨declaration :: declared, .step hdeclares haccepted hrest⟩
    · next error herror => exact ⟨[], .failed (fails_of_declareIn_eq_error herror)⟩

namespace Run

variable {definitions : List Definition} {declared : List Declaration} {result : Vocabulary}
  {outcome : Option Error}

/-- The declarations of a run are accepted, and they alone lead to its result. -/
theorem declareAll_eq (hrun : Run vocabulary definitions declared result outcome) :
    vocabulary.declareAll declared = (result, none) := by
  induction hrun with
  | done => rfl
  | failed => rfl
  | step _ haccepted _ ih => exact Vocabulary.declareAll_cons_eq_none_iff.mpr ⟨_, haccepted, ih⟩

/-- A run without error declares all definitions. -/
theorem length_eq (hrun : Run vocabulary definitions declared result none) :
    declared.length = definitions.length := by
  generalize houtcome : (none : Option Error) = outcome at hrun
  induction hrun with
  | done => rfl
  | failed => cases houtcome
  | step _ _ _ ih => exact congrArg (· + 1) (ih houtcome)

end Run

end Definition

/-! ### What a definition may refer to -/

namespace Vocabulary

open Declaration

end Vocabulary

end Metrology
