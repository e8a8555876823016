/-!
# Texts

A text is the sequence of its bytes. Lengths, positions, padding and order all count bytes, so a
text may hold any bytes at all, well-formed UTF-8 or not. This module has the byte-level operations
that the rest of the library shares: trimming, splitting at a byte, padding and lower case.
-/

set_option autoImplicit false
set_option relaxedAutoImplicit false

namespace Metrology

/-- A text, as the sequence of its bytes. -/
abbrev Text := List UInt8

namespace Text

instance : LawfulBEq Text := inferInstance

/-- The bytes that trimming removes: space, tab, carriage return and line feed. -/
def isBlank (byte : UInt8) : Bool :=
  byte == 32 || byte == 9 || byte == 13 || byte == 10

/-- A text without the blanks it starts with. -/
def trimLeft (text : Text) : Text :=
  text.dropWhile isBlank

/-- A text without the blanks it ends with. -/
def trimRight (text : Text) : Text :=
  (trimLeft text.reverse).reverse

/-- A text without the blanks at either end. -/
def trim (text : Text) : Text :=
  trimRight (trimLeft text)

/-- The pieces between the occurrences of a byte. There is one more piece than occurrences. -/
def splitOn (delimiter : UInt8) : Text → List Text
  | [] => [[]]
  | byte :: rest =>
    if byte = delimiter then [] :: splitOn delimiter rest
    else (splitOn delimiter rest).modifyHead (byte :: ·)

/-- The parts before and after the first occurrence of a byte, when there is one. -/
def cut? (delimiter : UInt8) (text : Text) : Option (Text × Text) :=
  match text.dropWhile (· != delimiter) with
  | [] => none
  | _ :: rest => some (text.takeWhile (· != delimiter), rest)

/-- The part before the first occurrence of a byte, the whole text when there is none. -/
def before (delimiter : UInt8) (text : Text) : Text :=
  text.takeWhile (· != delimiter)

/-- Spaces are added on the right up to a least width. -/
def padRight (width : Nat) (text : Text) : Text :=
  text ++ List.replicate (width - text.length) 32

/-- ASCII capital letters become small; every other byte stays. -/
def lowercase (text : Text) : Text :=
  text.map fun byte ↦ if 65 ≤ byte ∧ byte ≤ 90 then byte + 32 else byte

end Text

end Metrology
