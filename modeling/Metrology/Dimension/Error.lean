import Metrology.Dimension.Text

/-!
# Dimension errors

What can go wrong in the algebra of dimensions, and where two dimensions had to agree and did not.
-/

set_option autoImplicit false
set_option relaxedAutoImplicit false

namespace Metrology

/-- Where two dimensions had to agree. -/
inductive Comparison where
  | addition
  | subtraction
  | ordering
  /-- A quantity is expressed in a unit. -/
  | targetUnit
  /-- An expression is read as a quantity of a given dimension. -/
  | expression (text : Text)
  /-- A setting is read in a unit. -/
  | setting (heading key : Text)
  /-- Any other place, in words. -/
  | described (text : Text)
  deriving DecidableEq

/-- The words for the place of a comparison. -/
def Comparison.description : Comparison → Text
  | addition => utf8 "Incompatible dimensions in addition"
  | subtraction => utf8 "Incompatible dimensions in subtraction"
  | ordering => utf8 "Incompatible dimensions in comparison"
  | targetUnit => utf8 "Cannot express quantity in target unit"
  | expression text => utf8 "Dimension mismatch for \"" ++ text ++ utf8 "\""
  | setting heading key => utf8 "Unit conversion error for [" ++ heading ++ utf8 "]:" ++ key
  | described text => text

/-- What can go wrong with dimensions. -/
inductive DimensionError where
  /-- An exponent would leave the range of exponents. -/
  | exponentOutOfRange (exponent : Int) (identifier : Text)
  | emptyIdentifier
  | zerothRoot (dimension : Dimension)
  /-- The order of a root does not divide the exponent of a base dimension. -/
  | indivisible (order : Int) (dimension : Dimension) (identifier : Text)
  | mismatch (comparison : Comparison) (expected actual : Dimension)
  /-- Any other error, in words. -/
  | described (text : Text)
  deriving DecidableEq

namespace DimensionError

/-- The message of a dimension error. -/
def message : DimensionError → Text
  | exponentOutOfRange exponent identifier =>
    utf8 "Exponent " ++ Decimal.ofInt exponent ++ utf8 " of " ++ identifier ++
      utf8 " is out of range"
  | emptyIdentifier => utf8 "Base dimension identifier cannot be empty"
  | zerothRoot dimension =>
    utf8 "Zeroth root of dimension " ++ dimension.toText ++ utf8 " is undefined"
  | indivisible order dimension identifier =>
    utf8 "Root of order " ++ Decimal.ofInt order ++ utf8 " is not defined for dimension " ++
      dimension.toText ++ utf8 " (exponent of " ++ identifier ++ utf8 " is " ++
      Decimal.ofInt (dimension.exponent identifier) ++ utf8 ")"
  | mismatch comparison expected actual =>
    comparison.description ++ utf8 ": expected " ++ expected.toText ++ utf8 ", got " ++
      actual.toText
  | described text => text

/-- The dimension that a mismatch asked for; none of the other errors has one. -/
def expected : DimensionError → Dimension
  | mismatch _ expected _ => expected
  | _ => .one

/-- The dimension that a mismatch found; none of the other errors has one. -/
def actual : DimensionError → Dimension
  | mismatch _ _ actual => actual
  | _ => .one

end DimensionError

end Metrology
