import Metrology.Configuration.Access
import Metrology.Expression.Evaluation

/-!
# Values with units

A value is read as a quantity of a given dimension, or as a number counted in a given unit. A plain
number where a unit is asked for is taken to be counted in that unit already. The forms with a
default never fail: they answer the default and warn.
-/

set_option autoImplicit false
set_option relaxedAutoImplicit false

namespace Metrology

/-- Why a configuration has no answer. -/
inductive ConfigurationError where
  | missingValue (heading key : Text)
  | invalid (error : Error)
  /-- The template of a configuration cannot be written. -/
  | unwritableTemplate (path : Text)
  deriving DecidableEq

/-- The message of a configuration error. -/
def ConfigurationError.message : ConfigurationError → Text
  | missingValue heading key => utf8 "Missing configuration value " ++ Warning.place heading key
  | invalid error => error.message
  | unwritableTemplate path => utf8 "Cannot write configuration template: " ++ path

namespace Configuration

/-- The value at a place as a quantity of a dimension. -/
def quantity (configuration : Configuration) (vocabulary : Vocabulary) (heading key : Text)
    (dimension : Dimension) : Except ConfigurationError Quantity :=
  match configuration.value? heading key with
  | none => .error (.missingValue heading key)
  | some value => (vocabulary.parseAs dimension value).mapError .invalid

/-- The value at a place as a quantity of a dimension, or a default. -/
def quantityOr (configuration : Configuration) (vocabulary : Vocabulary) (heading key : Text)
    (dimension : Dimension) (default : Quantity) : Reported Quantity :=
  match configuration.value? heading key with
  | none => .silent default
  | some value =>
    match vocabulary.parseAs dimension value with
    | .ok quantity => .silent quantity
    | .error error => .warning default (.invalidQuantity heading key error)

/-- A quantity counted in a unit for the setting at a place. A plain number is counted in the unit
already, unless the unit is a plain number too. -/
def convertQuantity (heading key : Text) (unit quantity : Quantity) : Except Error Float :=
  if quantity.dimension = .one ∧ unit.dimension ≠ .one then .ok quantity.magnitude
  else if quantity.dimension ≠ unit.dimension then
    .error (.dimension (.mismatch (.setting heading key) unit.dimension quantity.dimension))
  else quantity.inUnit unit

/-- A written value counted in a unit. -/
def convert (vocabulary : Vocabulary) (heading key : Text) (unit : Quantity) (value : Text) :
    Except Error Float :=
  (vocabulary.parse value).bind (convertQuantity heading key unit)

/-- The value at a place counted in a unit, or a default. -/
def doubleIn (configuration : Configuration) (vocabulary : Vocabulary) (heading key : Text)
    (default : Float) (unit : Text) : Reported Float :=
  match configuration.textOrEmpty heading key with
  | [] => .silent default
  | value =>
    match (vocabulary.parse unit).bind (convert vocabulary heading key · value) with
    | .ok number => .silent number
    | .error error => .warning default (.conversion heading key error)

/-- A piece of a list counted in a unit. -/
def pieceIn (vocabulary : Vocabulary) (heading key : Text) (unit : Quantity) (piece : Text) :
    Reported (Option Float) :=
  match convert vocabulary heading key unit piece with
  | .ok number => .silent (some number)
  | .error error => .warning none (.pieceConversion piece error)

/-- The value at a place as a list of numbers counted in a unit. -/
def doublesIn (configuration : Configuration) (vocabulary : Vocabulary) (heading key unit : Text) :
    Reported (List Float) :=
  match configuration.textOrEmpty heading key with
  | [] => .silent []
  | value =>
    match vocabulary.parse unit with
    | .ok parsed => .collect ((pieces value).map (pieceIn vocabulary heading key parsed))
    | .error error => .warning [] (.invalidUnit unit heading key error)

end Configuration

end Metrology
