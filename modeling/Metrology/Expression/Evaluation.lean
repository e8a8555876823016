import Metrology.Expression.Outline
import Metrology.Quantity.Basic
import Metrology.Vocabulary.Reading

/-!
# The quantity of an expression

An expression stands for its number times or over its factors, from left to right; without a number
it starts from the first factor. A factor is the unit that its symbol reads as, to the power of its
exponent. `parse` reads a text, `parseAs` one whose dimension is known.
-/

set_option autoImplicit false
set_option relaxedAutoImplicit false

namespace Metrology

/-- The reading of a symbol in an expression. -/
def Occurrence.resolve (vocabulary : Vocabulary) (input : Text) (occurrence : Occurrence) :
    Except Error Reading :=
  (vocabulary.resolve occurrence.symbol).mapError fun fault ↦
    .expression ⟨.symbol fault, input, occurrence.position⟩

/-- A reading to the power of an exponent. -/
def Reading.power (reading : Reading) (exponent : Int) : Except Error Quantity :=
  (Quantity.power ⟨reading.scale, reading.dimension⟩ exponent).mapError .dimension

/-- The quantity of a factor, not inverted. -/
def Factor.quantity (vocabulary : Vocabulary) (input : Text) (factor : Factor) :
    Except Error Quantity :=
  (factor.occurrence.resolve vocabulary input).bind (·.power factor.exponent)

/-- What stands left of a factor times the factor, or over it when it is inverted. With nothing
to the left it is the factor itself. -/
def Factor.apply (factor : Factor) (left : Option Quantity) (quantity : Quantity) :
    Except Error Quantity :=
  match left with
  | none => .ok quantity
  | some left =>
    (if factor.inverted then left.div quantity else left.mul quantity).mapError .dimension

/-- The quantity of factors after what stands left of them. -/
def evaluateFactors (vocabulary : Vocabulary) (input : Text) :
    Option Quantity → List Factor → Except Error (Option Quantity)
  | left, [] => .ok left
  | left, factor :: rest =>
    ((factor.quantity vocabulary input).bind (factor.apply left)).bind fun result ↦
      evaluateFactors vocabulary input (some result) rest

/-- The error of a fault of grammar. A symbol that was read before it comes first. -/
def Ending.error (vocabulary : Vocabulary) (input : Text) (unfinished : Option Occurrence)
    (refusal : GrammarRefusal) : Error :=
  let fault : Error := .expression ⟨.grammar refusal.fault, input, refusal.position⟩
  match unfinished with
  | none => fault
  | some occurrence =>
    match occurrence.resolve vocabulary input with
    | .ok _ => fault
    | .error error => error

/-- The quantity of an outline. The input is named in errors. An expression without number and
factors would stand for one. -/
def Outline.evaluate (vocabulary : Vocabulary) (input : Text) (outline : Outline) :
    Except Error Quantity :=
  (evaluateFactors vocabulary input (outline.number.map Quantity.number) outline.factors).bind
    fun result ↦
      match outline.ending with
      | .complete => .ok (result.getD (.number 1.0))
      | .broken unfinished refusal =>
        .error (Ending.error vocabulary input unfinished refusal)

namespace Vocabulary

/-- The quantity that a text stands for. -/
def parse (vocabulary : Vocabulary) (text : Text) : Except Error Quantity :=
  ((Token.ofText text).mapError .expression).bind fun tokens ↦
    (Outline.ofTokens tokens).evaluate vocabulary text

/-- The quantity that a text stands for, which has to have a given dimension. -/
def parseAs (vocabulary : Vocabulary) (dimension : Dimension) (text : Text) :
    Except Error Quantity :=
  (vocabulary.parse text).bind fun quantity ↦
    if quantity.dimension = dimension then .ok quantity
    else .error (.dimension (.mismatch (.expression text) dimension quantity.dimension))

end Vocabulary

end Metrology
