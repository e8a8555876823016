import Metrology.Error
import Metrology.Numeric.Power

/-!
# Quantities

A quantity is a magnitude with a dimension. Magnitudes count coherent units, so a unit is itself a
quantity. Sums, differences and comparisons ask for equal dimensions; products, quotients, powers
and roots act on the dimensions as in `Metrology.Dimension`. Whether an operation fails never
depends on the magnitudes, except that a quantity cannot be expressed in a unit that is zero.
-/

set_option autoImplicit false
set_option relaxedAutoImplicit false

namespace Metrology

/-- A magnitude in coherent units, and its dimension. -/
structure Quantity where
  magnitude : Float
  dimension : Dimension
  deriving DecidableEq

namespace Quantity

/-- A plain number. -/
def number (magnitude : Float) : Quantity :=
  ⟨magnitude, .one⟩

/-- One unit of a base dimension. -/
def baseUnit (identifier : Text) : Except DimensionError Quantity :=
  (Dimension.base identifier).map fun dimension ↦ ⟨1.0, dimension⟩

/-- A quantity whose dimension is yet to be checked. -/
def withDimension (magnitude : Float) (dimension : Except DimensionError Dimension) :
    Except DimensionError Quantity :=
  dimension.map fun dimension ↦ ⟨magnitude, dimension⟩

/-- The result of an operation on quantities of one dimension. -/
def compare {α : Type} (comparison : Comparison) (operation : Float → Float → α)
    (first second : Quantity) : Except DimensionError α :=
  if first.dimension = second.dimension then .ok (operation first.magnitude second.magnitude)
  else .error (.mismatch comparison first.dimension second.dimension)

/-! ### Arithmetic -/

/-- The sum of quantities of one dimension. -/
def add (first second : Quantity) : Except DimensionError Quantity :=
  compare .addition (fun a b ↦ ⟨a + b, first.dimension⟩) first second

/-- The difference of quantities of one dimension. -/
def sub (first second : Quantity) : Except DimensionError Quantity :=
  compare .subtraction (fun a b ↦ ⟨a - b, first.dimension⟩) first second

/-- The product of two quantities. -/
def mul (first second : Quantity) : Except DimensionError Quantity :=
  withDimension (first.magnitude * second.magnitude) (first.dimension.product second.dimension)

/-- The quotient of two quantities. -/
def div (first second : Quantity) : Except DimensionError Quantity :=
  withDimension (first.magnitude / second.magnitude) (first.dimension.quotient second.dimension)

/-- A number times a quantity. -/
def scale (factor : Float) (quantity : Quantity) : Quantity :=
  ⟨factor * quantity.magnitude, quantity.dimension⟩

/-- A quantity times a number. -/
def times (quantity : Quantity) (factor : Float) : Quantity :=
  ⟨quantity.magnitude * factor, quantity.dimension⟩

/-- A quantity divided by a number. -/
def dividedBy (quantity : Quantity) (divisor : Float) : Quantity :=
  ⟨quantity.magnitude / divisor, quantity.dimension⟩

/-- A number divided by a quantity. -/
def inverted (dividend : Float) (quantity : Quantity) : Except DimensionError Quantity :=
  withDimension (dividend / quantity.magnitude) (quantity.dimension.power (-1))

/-- The quantity with the opposite sign. -/
def neg (quantity : Quantity) : Quantity :=
  ⟨-quantity.magnitude, quantity.dimension⟩

/-- The quantity without its sign. -/
def abs (quantity : Quantity) : Quantity :=
  ⟨quantity.magnitude.abs, quantity.dimension⟩

/-- An integer power of a quantity. -/
def power (quantity : Quantity) (exponent : Int) : Except DimensionError Quantity :=
  withDimension (Real64.power quantity.magnitude exponent) (quantity.dimension.power exponent)

/-- The root of a quantity. -/
def root (quantity : Quantity) (order : Int) : Except DimensionError Quantity :=
  withDimension (Real64.root quantity.magnitude order) (quantity.dimension.root order)

/-- The square root of a quantity. -/
def sqrt (quantity : Quantity) : Except DimensionError Quantity :=
  withDimension quantity.magnitude.sqrt (quantity.dimension.root 2)

/-- The cube root of a quantity. -/
def cbrt (quantity : Quantity) : Except DimensionError Quantity :=
  withDimension quantity.magnitude.cbrt (quantity.dimension.root 3)

/-! ### Comparison -/

/-- The ways to compare two quantities. -/
inductive Relation where
  | equal
  | different
  | less
  | lessOrEqual
  | greater
  | greaterOrEqual
  deriving DecidableEq

/-- A relation between two doubles. A NaN differs from every number and has no order. -/
def Relation.holds : Relation → Float → Float → Bool
  | equal, first, second => first == second
  | different, first, second => !(first == second)
  | less, first, second => first < second
  | lessOrEqual, first, second => first ≤ second
  | greater, first, second => second < first
  | greaterOrEqual, first, second => second ≤ first

/-- The relation read from right to left. -/
def Relation.isReversed : Relation → Bool
  | greater | greaterOrEqual => true
  | _ => false

/-- Compares two quantities of one dimension. The error of a relation that is read from right to
left names the second dimension first. -/
def relate (relation : Relation) (first second : Quantity) : Except DimensionError Bool :=
  if relation.isReversed then compare .ordering (fun a b ↦ relation.holds b a) second first
  else compare .ordering relation.holds first second

/-- The default tolerance relative to the larger magnitude. -/
def relativeTolerance : Float := 1e-9

/-- The default tolerance that does not depend on the magnitudes. -/
def absoluteTolerance : Float := 0.0

/-- Two quantities of one dimension differ by no more than one of two tolerances allows. -/
def approximates (first second : Quantity) (relative absolute : Float) :
    Except DimensionError Bool :=
  compare .ordering (fun a b ↦
    (a - b).abs ≤ Real64.larger (relative * Real64.larger a.abs b.abs) absolute) first second

/-- The magnitude of a quantity counted in a unit. -/
def inUnit (quantity unit : Quantity) : Except Error Float :=
  if quantity.dimension ≠ unit.dimension then
    .error (.dimension (.mismatch .targetUnit unit.dimension quantity.dimension))
  else if unit.magnitude == 0.0 then .error .zeroUnit
  else .ok (quantity.magnitude / unit.magnitude)

end Quantity

end Metrology
