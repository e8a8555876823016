import Metrology.Expression.Token
import Metrology.Text.Decimal

/-!
# Errors in unit expressions

A unit expression is refused because its characters make no tokens, because its tokens make no
expression, or because a symbol has no reading in the vocabulary or more than one. The error carries
the expression and the byte offset at which reading stopped.
-/

set_option autoImplicit false
set_option relaxedAutoImplicit false

namespace Metrology

/-- Why characters make no tokens. -/
inductive LexicalFault where
  | encoding (fault : Utf8.Fault)
  | unexpectedCharacter (code : Nat)
  | malformedNumber (text : Text)
  | numberOutOfRange (text : Text)
  | superscriptOutOfRange
  | superscriptWithoutDigits
  /-- Any other fault, in words. -/
  | described (text : Text)
  deriving DecidableEq

/-- What the grammar asks for where another token stands. -/
inductive Expectation where
  | integerExponent
  | unitSymbol
  | operatorOrEnd
  deriving DecidableEq

/-- Why tokens make no expression. -/
inductive GrammarFault where
  | emptyExpression
  | unexpected (expectation : Expectation) (found : Token)
  /-- Blanks stand between a symbol and its exponent in superscripts. -/
  | detachedSuperscript
  | exponentOutOfRange
  /-- The tokens end without an end of input; no text has such tokens. -/
  | unterminated
  /-- Any other fault, in words. -/
  | described (text : Text)
  deriving DecidableEq

/-- Why a symbol stands for no unit. -/
inductive SymbolFault where
  | unknown (symbol : Text)
  | ambiguous (symbol : Text) (candidates : List Text)
  deriving DecidableEq

/-- Why an expression is refused. -/
inductive ExpressionFault where
  | lexical (fault : LexicalFault)
  | grammar (fault : GrammarFault)
  | symbol (fault : SymbolFault)
  deriving DecidableEq

/-- An expression that is refused, and where. -/
structure ExpressionError where
  fault : ExpressionFault
  input : Text
  /-- The byte offset at which reading stopped. -/
  position : Nat
  deriving DecidableEq

/-- The message of a lexical fault. -/
def LexicalFault.message : LexicalFault → Text
  | encoding .malformed => utf8 "invalid UTF-8 sequence"
  | encoding .truncated => utf8 "truncated UTF-8 sequence"
  | unexpectedCharacter code => utf8 "unexpected character '" ++ Utf8.encode code ++ utf8 "'"
  | malformedNumber text => utf8 "malformed numeric literal '" ++ text ++ utf8 "'"
  | numberOutOfRange text => utf8 "numeric literal out of range '" ++ text ++ utf8 "'"
  | superscriptOutOfRange => utf8 "superscript exponent out of range"
  | superscriptWithoutDigits => utf8 "superscript sign without digits"
  | described text => text

/-- The words for what the grammar asks for. -/
def Expectation.description : Expectation → Text
  | integerExponent => utf8 "integer exponent"
  | unitSymbol => utf8 "unit symbol"
  | operatorOrEnd => utf8 "operator or end of input"

/-- The message of a fault of grammar. -/
def GrammarFault.message : GrammarFault → Text
  | emptyExpression => utf8 "Empty unit expression"
  | unexpected expectation found =>
    utf8 "Expected " ++ expectation.description ++ utf8 " but found " ++ found.description
  | detachedSuperscript => utf8 "Superscript exponent must follow its symbol directly"
  | exponentOutOfRange => utf8 "Exponent out of range"
  | unterminated => utf8 "Unterminated expression"
  | described text => text

/-- The message of a fault of a symbol. -/
def SymbolFault.message : SymbolFault → Text
  | unknown symbol => utf8 "Unknown unit symbol '" ++ symbol ++ utf8 "'"
  | ambiguous symbol candidates =>
    utf8 "Ambiguous unit symbol '" ++ symbol ++ utf8 "' (candidates: " ++
      (utf8 ", ").intercalate candidates ++ utf8 ")"

/-- The message of a fault, without its place. -/
def ExpressionFault.message : ExpressionFault → Text
  | lexical fault => utf8 "Lexical error: " ++ fault.message
  | grammar fault => fault.message
  | symbol fault => fault.message

/-- The message of an error. The place is given unless the expression is empty. -/
def ExpressionError.message (error : ExpressionError) : Text :=
  if error.input = [] then error.fault.message
  else error.fault.message ++ utf8 " in \"" ++ error.input ++ utf8 "\" at offset " ++
    Decimal.ofNat error.position

end Metrology
