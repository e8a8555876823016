import Metrology.Expression.Evaluation
import Metrology.Vocabulary.Rendering

/-!
# The text of a quantity

A quantity is written as its magnitude followed by its coherent units, or in a given unit with a
fixed number of digits after the point.
-/

set_option autoImplicit false
set_option relaxedAutoImplicit false

namespace Metrology.Quantity

/-- A magnitude followed by units, when there are any. -/
def withUnits (magnitude units : Text) : Text :=
  if units = [] then magnitude else magnitude ++ utf8 " " ++ units

/-- The text of a quantity in coherent units. -/
def toText (vocabulary : Vocabulary) (quantity : Quantity) : Except Error Text :=
  (vocabulary.render quantity.dimension).map (withUnits (Display.general quantity.magnitude))

/-- The number of digits after the point when none is asked for. -/
def defaultPlaces : Int := 6

/-- The text of a quantity counted in a unit, which is itself an expression. -/
def toTextIn (vocabulary : Vocabulary) (quantity : Quantity) (unit : Text) (places : Int) :
    Except Error Text :=
  (vocabulary.parse unit).bind fun parsed ↦
    (quantity.inUnit parsed).map fun value ↦ Display.fixed places value ++ utf8 " " ++ unit

end Metrology.Quantity
