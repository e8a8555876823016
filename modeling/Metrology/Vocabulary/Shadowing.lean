import Metrology.Vocabulary.Reading
import Metrology.Numeric.Power

/-!
# Shadowed readings

A unit symbol that also reads as a prefix and a unit hides that reading, since the unit of that name
always wins. This is harmless when both readings have the same dimension and scale. A vocabulary is
sound when no other reading is hidden, or when it is acknowledged that it is.
-/

set_option autoImplicit false
set_option relaxedAutoImplicit false

namespace Metrology

/-- Two scales are the same up to rounding. -/
def SameScale (first second : Float) : Prop :=
  (first - second).abs ≤ 1e-12 * Real64.larger first.abs second.abs

instance (first second : Float) : Decidable (SameScale first second) :=
  inferInstanceAs (Decidable (_ ≤ _))

/-- A reading gives its symbol another meaning than the unit of that name has. -/
def Reading.ConflictsWith (reading : Reading) (entry : UnitEntry) : Prop :=
  reading.dimension ≠ entry.dimension ∨ ¬ SameScale reading.scale entry.scale

instance (reading : Reading) (entry : UnitEntry) : Decidable (reading.ConflictsWith entry) :=
  inferInstanceAs (Decidable (_ ∨ _))

namespace Vocabulary

/-- The readings that the symbol of a unit hides. -/
def conflicts (vocabulary : Vocabulary) (entry : UnitEntry) : List Reading :=
  (vocabulary.decompositions entry.symbol).filter fun reading ↦ reading.ConflictsWith entry

/-- The fault of a unit that hides other readings without acknowledgement. -/
def shadowing? (vocabulary : Vocabulary) (entry : UnitEntry) : Option SymbolFault :=
  if vocabulary.Acknowledges entry.symbol then none
  else
    match vocabulary.conflicts entry with
    | [] => none
    | hidden => some (.ambiguous entry.symbol (entry.symbol :: hidden.map Reading.description))

/-- The vocabulary itself when it is sound; else the first unit, in the order of declaration, that
hides other readings. -/
def build (vocabulary : Vocabulary) : Except ExpressionError Vocabulary :=
  match vocabulary.unitEntries.findSome? vocabulary.shadowing? with
  | some fault => .error ⟨.symbol fault, [], 0⟩
  | none => .ok vocabulary

end Vocabulary

end Metrology
