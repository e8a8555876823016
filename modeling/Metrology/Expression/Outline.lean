import Metrology.Expression.Lexer

/-!
# The outline of an expression

An expression is an optional number and factors. A factor is a symbol with an exponent, `/` before
it inverts it, and blanks before it stand for `*`. The outline of a list of tokens has the number
and the factors as far as the tokens follow the grammar, and says whether all of them do (`Ending`).
It knows nothing of the vocabulary. Where a fault lies in the exponent of a symbol, that symbol is
kept beside the fault, because a symbol without reading is reported before its exponent.
-/

set_option autoImplicit false
set_option relaxedAutoImplicit false

namespace Metrology

/-- A symbol at a byte offset. -/
structure Occurrence where
  symbol : Text
  position : Nat
  deriving DecidableEq

/-- A factor of an expression. -/
structure Factor where
  /-- The factor follows `/`. -/
  inverted : Bool
  occurrence : Occurrence
  exponent : Int
  deriving DecidableEq

/-- A fault of grammar and the byte offset where it lies. -/
structure GrammarRefusal where
  fault : GrammarFault
  position : Nat
  deriving DecidableEq

/-- How the tokens of an expression end. -/
inductive Ending where
  | complete
  /-- The rest of the tokens is not in the grammar. The symbol was read before the fault, without an
  exponent. -/
  | broken (unfinished : Option Occurrence) (refusal : GrammarRefusal)
  deriving DecidableEq

/-- The number and the factors of an expression. -/
structure Outline where
  number : Option Float
  factors : List Factor
  ending : Ending
  deriving DecidableEq

namespace Outline

/-- A refusal at a token that the grammar does not allow. -/
def unexpected (expectation : Expectation) (token : Token) : GrammarRefusal :=
  ⟨.unexpected expectation token, token.position⟩

/-- A refusal of tokens that do not end with an end of input. -/
def unterminated : GrammarRefusal :=
  ⟨.unterminated, 0⟩

/-- The exponent after a caret. -/
def caretExponent : List Token → Except GrammarRefusal (Int × List Token)
  | [] => .error unterminated
  | token :: rest =>
    match token.kind with
    | .number _ (some exponent) =>
      if Lexer.exponentLimit < exponent.natAbs then .error ⟨.exponentOutOfRange, token.position⟩
      else .ok (exponent, rest)
    | _ => .error (unexpected .integerExponent token)

/-- The exponent that may follow a symbol. A symbol without exponent has the exponent one. -/
def exponent : List Token → Except GrammarRefusal (Int × List Token)
  | [] => .error unterminated
  | token :: rest =>
    match token.kind with
    | .superscript exponent =>
      if token.spaced then .error ⟨.detachedSuperscript, token.position⟩ else .ok (exponent, rest)
    | .caret => caretExponent rest
    | _ => .ok (1, token :: rest)

/-- A factor, or the symbol of it before a fault. -/
def factor (inverted : Bool) :
    List Token → Except (Option Occurrence × GrammarRefusal) (Factor × List Token)
  | [] => .error (none, unterminated)
  | token :: rest =>
    if token.kind = .symbol then
      let occurrence : Occurrence := ⟨token.text, token.position⟩
      match exponent rest with
      | .ok (exponent, rest) => .ok (⟨inverted, occurrence, exponent⟩, rest)
      | .error refusal => .error (some occurrence, refusal)
    else .error (none, unexpected .unitSymbol token)

theorem caretExponent_length_lt {tokens rest : List Token} {exponent : Int}
    (h : caretExponent tokens = .ok (exponent, rest)) : rest.length < tokens.length := by
  unfold caretExponent at h
  split at h
  · cases h
  · split at h
    · split at h
      · cases h
      · cases h
        simp
    · cases h

theorem exponent_length_le {tokens rest : List Token} {value : Int}
    (h : exponent tokens = .ok (value, rest)) : rest.length ≤ tokens.length := by
  unfold exponent at h
  split at h
  · cases h
  · split at h
    · split at h
      · cases h
      · cases h
        simp
    · exact Nat.le_succ_of_le (Nat.le_of_lt (caretExponent_length_lt h))
    · cases h
      simp

/-- A factor takes one token at least. -/
theorem factor_length_lt {inverted : Bool} {tokens rest : List Token} {result : Factor}
    (h : factor inverted tokens = .ok (result, rest)) : rest.length < tokens.length := by
  unfold factor at h
  split at h
  · cases h
  · split at h
    · dsimp only at h
      split at h
      · next hexponent =>
        cases h
        exact Nat.lt_succ_of_le (exponent_length_le hexponent)
      · cases h
    · cases h

/-- The factor that starts with an operator or, after blanks, with its symbol. -/
def nextFactor (token : Token) (rest : List Token) :
    Except (Option Occurrence × GrammarRefusal) (Factor × List Token) :=
  match token.kind with
  | .times => factor false rest
  | .divide => factor true rest
  | .symbol =>
    if token.spaced then factor false (token :: rest)
    else .error (none, unexpected .operatorOrEnd token)
  | _ => .error (none, unexpected .operatorOrEnd token)

theorem nextFactor_length_lt {token : Token} {tokens rest : List Token} {result : Factor}
    (h : nextFactor token tokens = .ok (result, rest)) : rest.length < tokens.length + 1 := by
  unfold nextFactor at h
  split at h
  · exact Nat.lt_succ_of_lt (factor_length_lt h)
  · exact Nat.lt_succ_of_lt (factor_length_lt h)
  · split at h
    · exact factor_length_lt h
    · cases h
  · cases h

/-- The factors after a number or a first factor, up to the end of the input. -/
def tail : List Token → List Factor × Ending
  | [] => ([], .broken none unterminated)
  | token :: rest =>
    if token.kind = .finish then ([], .complete)
    else
      match _hfactor : nextFactor token rest with
      | .ok (first, rest) =>
        let (factors, ending) := tail rest
        (first :: factors, ending)
      | .error (unfinished, refusal) => ([], .broken unfinished refusal)
  termination_by tokens => tokens.length
  decreasing_by exact nextFactor_length_lt _hfactor

/-- A first factor without operator, and the factors after it. -/
def leading (tokens : List Token) : List Factor × Ending :=
  match factor false tokens with
  | .ok (first, rest) =>
    let (factors, ending) := tail rest
    (first :: factors, ending)
  | .error (unfinished, refusal) => ([], .broken unfinished refusal)

/-- The factors after a number. The first one may do without operator and blanks. -/
def afterNumber : List Token → List Factor × Ending
  | [] => ([], .broken none unterminated)
  | token :: rest =>
    if token.kind = .finish ∨ token.kind = .times ∨ token.kind = .divide then tail (token :: rest)
    else leading (token :: rest)

/-- The outline of a list of tokens. -/
def ofTokens : List Token → Outline
  | [] => ⟨none, [], .broken none unterminated⟩
  | token :: rest =>
    match token.kind with
    | .finish => ⟨none, [], .broken none ⟨.emptyExpression, 0⟩⟩
    | .number value _ =>
      let (factors, ending) := afterNumber rest
      ⟨some value, factors, ending⟩
    | _ =>
      let (factors, ending) := leading (token :: rest)
      ⟨none, factors, ending⟩

end Outline

end Metrology
