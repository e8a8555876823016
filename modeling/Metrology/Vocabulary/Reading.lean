import Metrology.Vocabulary.Basic
import Metrology.Expression.Error

/-!
# Readings of symbols

A symbol reads as a registered unit, or as a registered prefix followed by a registered unit.
`decompositions` lists the readings of the second kind, the longest prefix first. A symbol is
resolved to the unit of that name when there is one, and else to its reading with the longest
prefix.
-/

set_option autoImplicit false
set_option relaxedAutoImplicit false

namespace Metrology

/-- A symbol read as a unit, with its prefix when it has one. -/
structure Reading where
  /-- The prefix; empty when the symbol is the unit itself. -/
  prefixSymbol : Text
  unitSymbol : Text
  /-- The scale of the unit times that of the prefix. -/
  scale : Float
  dimension : Dimension
  deriving DecidableEq

namespace Reading

/-- The words for a reading, such as `k + m`, or `m` without prefix. -/
def description (reading : Reading) : Text :=
  if reading.prefixSymbol = [] then reading.unitSymbol
  else reading.prefixSymbol ++ utf8 " + " ++ reading.unitSymbol

/-- A unit without prefix. -/
def exact (entry : UnitEntry) : Reading :=
  ⟨[], entry.symbol, entry.scale, entry.dimension⟩

/-- A unit with a prefix. -/
def prefixed (first : PrefixEntry) (second : UnitEntry) : Reading :=
  ⟨first.symbol, second.symbol, first.scale * second.scale, second.dimension⟩

end Reading

namespace Vocabulary

/-- The reading of a symbol whose prefix has a given length. -/
def decompositionAt (vocabulary : Vocabulary) (symbol : Text) (length : Nat) : Option Reading :=
  match vocabulary.findPrefix (symbol.take length), vocabulary.findUnit (symbol.drop length) with
  | some first, some second => some (.prefixed first second)
  | _, _ => none

/-- The lengths of prefix to be tried, the longest first. Both the prefix and the unit are proper
parts of the symbol. -/
def splitLengths (vocabulary : Vocabulary) (symbol : Text) : List Nat :=
  ((List.range (min vocabulary.longestPrefix (symbol.length - 1))).map (· + 1)).reverse

/-- The readings of a symbol as a prefix and a unit, the longest prefix first. -/
def decompositions (vocabulary : Vocabulary) (symbol : Text) : List Reading :=
  (vocabulary.splitLengths symbol).filterMap (vocabulary.decompositionAt symbol)

/-- The reading of a symbol. -/
def resolve (vocabulary : Vocabulary) (symbol : Text) : Except SymbolFault Reading :=
  match vocabulary.findUnit symbol with
  | some entry => .ok (.exact entry)
  | none =>
    match vocabulary.decompositions symbol with
    | [] => .error (.unknown symbol)
    | best :: others =>
      match others.takeWhile fun other ↦ other.prefixSymbol.length = best.prefixSymbol.length with
      | [] => .ok best
      | rivals => .error (.ambiguous symbol ((best :: rivals).map Reading.description))

end Vocabulary

end Metrology
