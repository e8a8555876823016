import Metrology.Text.Utf8

/-!
# Tokens of unit expressions

A token is a number, a symbol, one of the operators `*`, `/` and `^`, an exponent written in
superscripts, or the end of the input. It knows its text, the byte offset where it starts and
whether blanks stand before it.
-/

set_option autoImplicit false
set_option relaxedAutoImplicit false

namespace Metrology

/-- What a token is, with the value that it carries. -/
inductive TokenKind where
  /-- A number; the integer is there when it has neither a point nor an exponent part. -/
  | number (value : Float) (integer : Option Int)
  | symbol
  | times
  | divide
  | caret
  | superscript (exponent : Int)
  /-- The end of the input. -/
  | finish
  deriving DecidableEq

/-- The words for a kind of token. -/
def TokenKind.description : TokenKind → Text
  | number _ _ => utf8 "number"
  | symbol => utf8 "symbol"
  | times => utf8 "'*'"
  | divide => utf8 "'/'"
  | caret => utf8 "'^'"
  | superscript _ => utf8 "superscript exponent"
  | finish => utf8 "end of input"

/-- A piece of a unit expression. -/
structure Token where
  kind : TokenKind
  text : Text
  /-- The byte offset of the first byte of the text. -/
  position : Nat
  /-- Blanks stand before the token. -/
  spaced : Bool
  deriving DecidableEq

/-- The words for a token: its kind, and its text in quotes unless it has none. -/
def Token.description (token : Token) : Text :=
  if token.text = [] then token.kind.description
  else token.kind.description ++ utf8 " '" ++ token.text ++ utf8 "'"

end Metrology
