import Metrology.Quantity.Basic

/-!
# Formulas

A formula is an expression of the operations on quantities, over variables for quantities and for
plain numbers. It is evaluated under an assignment of values to the variables; exponents and the
orders of roots are part of the formula itself. Which operand of a sum or product is evaluated first
decides which of two errors is met, and is not settled by the operation: a formula says it at each
place, so that what holds of all formulas holds in every order. `Formula.dimension` finds the
dimension of a formula from those of its variables, without evaluating it.
-/

set_option autoImplicit false
set_option relaxedAutoImplicit false

namespace Metrology

/-- The operations on one quantity. The plain numbers that take part are named. -/
inductive UnaryOperation where
  | neg
  | abs
  /-- A number times the quantity. -/
  | scale (number : Text)
  /-- The quantity times a number. -/
  | times (number : Text)
  | dividedBy (number : Text)
  /-- A number divided by the quantity. -/
  | inverted (number : Text)
  | power (exponent : Int)
  | root (order : Int)
  | sqrt
  | cbrt
  deriving DecidableEq

/-- The operations on two quantities. -/
inductive BinaryOperation where
  | add
  | sub
  | mul
  | div
  deriving DecidableEq

/-- Which of two operands is evaluated first. -/
inductive OperandOrder where
  | leftFirst
  | rightFirst
  deriving DecidableEq

/-- An expression of operations on quantities, over named quantities. -/
inductive Formula where
  | named (name : Text)
  | unary (operation : UnaryOperation) (operand : Formula)
  | binary (operation : BinaryOperation) (order : OperandOrder) (first second : Formula)
  deriving DecidableEq

/-- The values of the named quantities and numbers. -/
structure Assignment where
  quantity : Text → Quantity
  number : Text → Float

/-- The dimensions of the named quantities. -/
def Assignment.dimension (assignment : Assignment) (name : Text) : Dimension :=
  (assignment.quantity name).dimension

/-- An operation on two results. Of two errors the one that is met first counts. -/
def OperandOrder.bind {ε α β : Type} (order : OperandOrder) (first second : Except ε α)
    (operation : α → α → Except ε β) : Except ε β :=
  match order with
  | leftFirst => first.bind fun left ↦ second.bind fun right ↦ operation left right
  | rightFirst => second.bind fun right ↦ first.bind fun left ↦ operation left right

namespace UnaryOperation

/-- The operation on a quantity, under values of the named numbers. -/
def apply (number : Text → Float) :
    UnaryOperation → Quantity → Except DimensionError Quantity
  | neg, operand => .ok operand.neg
  | abs, operand => .ok operand.abs
  | scale name, operand => .ok (operand.scale (number name))
  | times name, operand => .ok (operand.times (number name))
  | dividedBy name, operand => .ok (operand.dividedBy (number name))
  | inverted name, operand => operand.inverted (number name)
  | power exponent, operand => operand.power exponent
  | root order, operand => operand.root order
  | sqrt, operand => operand.sqrt
  | cbrt, operand => operand.cbrt

/-- The operation on a dimension. -/
def dimension : UnaryOperation → Dimension → Except DimensionError Dimension
  | inverted _, operand => operand.power (-1)
  | power exponent, operand => operand.power exponent
  | root order, operand => operand.root order
  | sqrt, operand => operand.root 2
  | cbrt, operand => operand.root 3
  | _, operand => .ok operand

end UnaryOperation

namespace BinaryOperation

/-- The operation on two quantities. -/
def apply : BinaryOperation → Quantity → Quantity → Except DimensionError Quantity
  | add, first, second => first.add second
  | sub, first, second => first.sub second
  | mul, first, second => first.mul second
  | div, first, second => first.div second

/-- The common dimension of two quantities that are compared. -/
def common (comparison : Comparison) (first second : Dimension) :
    Except DimensionError Dimension :=
  if first = second then .ok first else .error (.mismatch comparison first second)

/-- The operation on two dimensions. -/
def dimension : BinaryOperation → Dimension → Dimension → Except DimensionError Dimension
  | add, first, second => common .addition first second
  | sub, first, second => common .subtraction first second
  | mul, first, second => first.product second
  | div, first, second => first.quotient second

end BinaryOperation

namespace Formula

/-- The quantity of a formula under an assignment. -/
def evaluate (assignment : Assignment) : Formula → Except DimensionError Quantity
  | named name => .ok (assignment.quantity name)
  | unary operation operand =>
    (operand.evaluate assignment).bind (operation.apply assignment.number)
  | binary operation order first second =>
    order.bind (first.evaluate assignment) (second.evaluate assignment) operation.apply

/-- The dimension of a formula whose variables have given dimensions. -/
def dimension (dimensions : Text → Dimension) : Formula → Except DimensionError Dimension
  | named name => .ok (dimensions name)
  | unary operation operand => (operand.dimension dimensions).bind operation.dimension
  | binary operation order first second =>
    order.bind (first.dimension dimensions) (second.dimension dimensions) operation.dimension

end Formula

end Metrology
