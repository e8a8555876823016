import Metrology.Configuration.Basic
import Metrology.Configuration.Warning
import Metrology.Numeric.Leading

/-!
# Values of settings

A value is read as a text, an integer, a double, a truth value or a list of doubles. A missing or
empty value answers the default. A value that is no number answers the default with a warning, and a
value that is no truth value answers it silently. A list is separated by commas; empty pieces do not
count, and a piece that is no double is left out with a warning.
-/

set_option autoImplicit false
set_option relaxedAutoImplicit false

namespace Metrology

/-- An answer, and the warnings that came with it. -/
structure Reported (α : Type) where
  result : α
  warnings : List Warning

namespace Reported

/-- An answer without warning. -/
def silent {α : Type} (result : α) : Reported α :=
  ⟨result, []⟩

/-- An answer with one warning. -/
def warning {α : Type} (result : α) (warning : Warning) : Reported α :=
  ⟨result, [warning]⟩

/-- The answers to a list of questions that have one, with all warnings in order. -/
def collect {α : Type} (answers : List (Reported (Option α))) : Reported (List α) :=
  ⟨answers.filterMap Reported.result, answers.flatMap Reported.warnings⟩

end Reported

namespace Configuration

/-- The value at a place as a text. -/
def text (configuration : Configuration) (heading key default : Text) : Text :=
  (configuration.value? heading key).getD default

/-- The value at a place, empty when there is none. -/
def textOrEmpty (configuration : Configuration) (heading key : Text) : Text :=
  configuration.text heading key []

/-- The value at a place as an integer. -/
def integer (configuration : Configuration) (heading key : Text) (default : Int) : Reported Int :=
  match configuration.textOrEmpty heading key with
  | [] => .silent default
  | value =>
    match Leading.integer? value with
    | some number => .silent number
    | none => .warning default (.notAnInteger heading key value)

/-- The value at a place as a double. -/
def double (configuration : Configuration) (heading key : Text) (default : Float) :
    Reported Float :=
  match configuration.textOrEmpty heading key with
  | [] => .silent default
  | value =>
    match Leading.double? value with
    | some number => .silent number
    | none => .warning default (.notADouble heading key value)

/-- The words for true. -/
def affirmations : List Text :=
  [utf8 "true", utf8 "yes", utf8 "1", utf8 "on"]

/-- The words for false. -/
def negations : List Text :=
  [utf8 "false", utf8 "no", utf8 "0", utf8 "off"]

/-- The value at a place as a truth value, in capitals or small letters. -/
def truth (configuration : Configuration) (heading key : Text) (default : Bool) : Bool :=
  let word := Text.lowercase (configuration.textOrEmpty heading key)
  if word ∈ affirmations then true else if word ∈ negations then false else default

/-- The pieces of a list, trimmed, without the empty ones. -/
def pieces (value : Text) : List Text :=
  ((Text.splitOn 44 value).map Text.trim).filter (· ≠ [])

/-- A piece of a list as a double. -/
def pieceAsDouble (piece : Text) : Reported (Option Float) :=
  match Leading.double? piece with
  | some number => .silent (some number)
  | none => .warning none (.pieceNotADouble piece)

/-- The value at a place as a list of doubles. -/
def doubles (configuration : Configuration) (heading key : Text) : Reported (List Float) :=
  .collect ((pieces (configuration.textOrEmpty heading key)).map pieceAsDouble)

end Configuration

end Metrology
