import Metrology.Configuration.Access
import Metrology.Expression.Evaluation

/-!
# Declaring symbols in a configuration

The settings below two headings extend a vocabulary: first the prefixes, each a plain number, then
the units, each an expression, or a word for a new base dimension named after the symbol. A
definition may use what was declared before it. The first one that is refused ends the declarations,
and those before it stay.
-/

set_option autoImplicit false
set_option relaxedAutoImplicit false

namespace Metrology

/-- A symbol defined in words. -/
structure Definition where
  kind : EntryKind
  symbol : Text
  text : Text
  deriving DecidableEq

namespace Definition

/-- The category of units that a configuration declares. -/
def category : Text := utf8 "custom"

/-- The word that defines the unit of a new base dimension. -/
def baseWord : Text := utf8 "base"

/-- A unit that counts a quantity. It is named by its symbol. -/
def unitOf (symbol : Text) (quantity : Quantity) : Declaration :=
  .unitEntry ⟨symbol, quantity.magnitude, quantity.dimension, symbol, category⟩

/-- A prefix that stands for the magnitude of a quantity. It is named by its symbol. -/
def prefixOf (symbol : Text) (quantity : Quantity) : Declaration :=
  .prefixEntry ⟨symbol, quantity.magnitude, symbol⟩

/-- The declaration that a definition makes in a vocabulary. -/
def declaration (vocabulary : Vocabulary) (definition : Definition) : Except Error Declaration :=
  match definition.kind with
  | .prefixEntry =>
    (vocabulary.parseAs .one definition.text).map (prefixOf definition.symbol)
  | .unitEntry =>
    if definition.text = baseWord then
      ((Quantity.baseUnit definition.symbol).mapError .dimension).map (unitOf definition.symbol)
    else (vocabulary.parse definition.text).map (unitOf definition.symbol)

/-- Declares a symbol as it is defined. -/
def declareIn (vocabulary : Vocabulary) (definition : Definition) : Except Error Vocabulary :=
  (definition.declaration vocabulary).bind fun declaration ↦
    (vocabulary.declare declaration).mapError .registration

/-- Declares symbols one after the other, up to the first that is refused. -/
def declareAll (vocabulary : Vocabulary) : List Definition → Vocabulary × Option Error
  | [] => (vocabulary, none)
  | definition :: rest =>
    match definition.declareIn vocabulary with
    | .ok vocabulary => declareAll vocabulary rest
    | .error error => (vocabulary, some error)

end Definition

namespace Configuration

/-- The definitions below a heading. -/
def definitionsBelow (configuration : Configuration) (heading : Text) (kind : EntryKind) :
    List Definition :=
  (configuration.keys heading).map fun key ↦
    ⟨kind, key, configuration.textOrEmpty heading key⟩

/-- The definitions of a configuration, those of prefixes first. -/
def definitions (configuration : Configuration) : List Definition :=
  configuration.definitionsBelow (utf8 "prefixes") .prefixEntry ++
    configuration.definitionsBelow (utf8 "units") .unitEntry

/-- Extends a vocabulary by the definitions of a configuration, up to the first that is refused. -/
def declareSymbols (configuration : Configuration) (vocabulary : Vocabulary) :
    Vocabulary × Option Error :=
  Definition.declareAll vocabulary configuration.definitions

end Configuration

end Metrology
