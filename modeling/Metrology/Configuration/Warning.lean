import Metrology.Error

/-!
# Warnings

What a configuration reports without failing: lines that it skips, and values that it cannot read
and answers by a default.
-/

set_option autoImplicit false
set_option relaxedAutoImplicit false

namespace Metrology

/-- A report about a configuration. -/
inductive Warning where
  /-- A file cannot be opened. -/
  | unreadableFile (path : Text)
  /-- A line is no header and has no equals sign. -/
  | invalidLine (number : Nat) (line : Text)
  | missingHeading (number : Nat)
  | emptyKey (number : Nat)
  | duplicateKey (heading key : Text) (number : Nat)
  | notAnInteger (heading key value : Text)
  | notADouble (heading key value : Text)
  /-- A piece of a list is no double. -/
  | pieceNotADouble (piece : Text)
  | invalidQuantity (heading key : Text) (error : Error)
  | conversion (heading key : Text) (error : Error)
  | invalidUnit (unit heading key : Text) (error : Error)
  /-- A piece of a list cannot be expressed in the unit. -/
  | pieceConversion (piece : Text) (error : Error)
  deriving DecidableEq

namespace Warning

/-- The words for the place of a setting. -/
def place (heading key : Text) : Text :=
  utf8 "[" ++ heading ++ utf8 "]:" ++ key

/-- The message of a warning. -/
def message : Warning → Text
  | unreadableFile path => utf8 "Error: Cannot open configuration file: " ++ path
  | invalidLine number line =>
    utf8 "Warning: Invalid line " ++ Decimal.ofNat number ++ utf8 ": " ++ line
  | missingHeading number => utf8 "Warning: Key without section at line " ++ Decimal.ofNat number
  | emptyKey number => utf8 "Warning: Empty key at line " ++ Decimal.ofNat number
  | duplicateKey heading key number =>
    utf8 "Warning: Duplicate key " ++ place heading key ++ utf8 " at line " ++
      Decimal.ofNat number ++ utf8 ", later value wins"
  | notAnInteger heading key value =>
    utf8 "Warning: Cannot parse " ++ place heading key ++ utf8 " = '" ++ value ++
      utf8 "' as integer"
  | notADouble heading key value =>
    utf8 "Warning: Cannot parse " ++ place heading key ++ utf8 " = '" ++ value ++
      utf8 "' as double"
  | pieceNotADouble piece => utf8 "Warning: Cannot parse '" ++ piece ++ utf8 "' as double"
  | invalidQuantity heading key error =>
    utf8 "Warning: Invalid quantity for " ++ place heading key ++ utf8 " - " ++ error.message
  | conversion heading key error =>
    utf8 "Warning: Unit conversion error for " ++ place heading key ++ utf8 " - " ++ error.message
  | invalidUnit unit heading key error =>
    utf8 "Warning: Invalid unit '" ++ unit ++ utf8 "' for " ++ place heading key ++ utf8 " - " ++
      error.message
  | pieceConversion piece error =>
    utf8 "Warning: Cannot convert '" ++ piece ++ utf8 "': " ++ error.message

end Warning

end Metrology
