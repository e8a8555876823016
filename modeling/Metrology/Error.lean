import Metrology.Expression.Error
import Metrology.Vocabulary.Registration

/-!
# Errors

The errors of the library: of expressions, of dimensions, of declarations, of expressing a quantity
in a unit that is zero, and of a vocabulary that lists a symbol without an entry.
-/

set_option autoImplicit false
set_option relaxedAutoImplicit false

namespace Metrology

/-- What can go wrong. -/
inductive Error where
  | expression (error : ExpressionError)
  | dimension (error : DimensionError)
  | registration (error : RegistrationError)
  /-- A quantity is expressed in a unit of magnitude zero. -/
  | zeroUnit
  /-- A vocabulary lists a symbol under which it has no entry. -/
  | missingEntry
  /-- Any other error, in words. -/
  | described (text : Text)
  deriving DecidableEq

/-- The message of an error. -/
def Error.message : Error → Text
  | expression error => error.message
  | dimension error => error.message
  | registration error => error.message
  | zeroUnit => utf8 "Cannot express quantity in a unit of magnitude zero"
  | missingEntry => utf8 "map::at"
  | described text => text

end Metrology
