import Metrology.Dimension.Algebra
import Metrology.Text.Index

/-!
# Vocabularies

A vocabulary holds the units and prefixes that expressions may use, and the unit symbols of which it
is acknowledged that they also read as a prefix and a unit. Units and prefixes are found by their
symbols; a symbol may be both. Beside the entries it keeps what would take long to find out from
them: the symbols in the order in which they were declared, the symbols of each category, and the
length of the longest prefix. Units without a category are listed under a common name.
-/

set_option autoImplicit false
set_option relaxedAutoImplicit false

namespace Metrology

/-- A unit under its symbol. One of it is `scale` times the coherent unit of its dimension. -/
structure UnitEntry where
  symbol : Text
  scale : Float
  dimension : Dimension
  name : Text
  category : Text
  deriving DecidableEq

/-- A prefix under its symbol, and the factor that it stands for. -/
structure PrefixEntry where
  symbol : Text
  scale : Float
  name : Text
  deriving DecidableEq

/-- The units and prefixes that expressions may use. -/
structure Vocabulary where
  /-- The units under their symbols. -/
  units : Index UnitEntry
  /-- The prefixes under their symbols. -/
  prefixes : Index PrefixEntry
  /-- The symbols of the units, in the order of declaration. -/
  unitOrder : List Text
  /-- The symbols of the prefixes, in the order of declaration. -/
  prefixOrder : List Text
  /-- The symbols of the units under each category, in the order of declaration. -/
  groups : Index (List Text)
  /-- The unit symbols that may also read as a prefix and a unit. -/
  acknowledged : List Text
  /-- The length of the longest prefix symbol; zero without prefixes. -/
  longestPrefix : Nat
  deriving DecidableEq

/-- The category under which a unit is listed. -/
def UnitEntry.group (entry : UnitEntry) : Text :=
  if entry.category = [] then utf8 "other" else entry.category

namespace Vocabulary

/-- The vocabulary without any symbol. -/
def empty : Vocabulary :=
  ⟨.empty, .empty, [], [], .empty, [], 0⟩

/-- The unit with a symbol. -/
def findUnit (vocabulary : Vocabulary) (symbol : Text) : Option UnitEntry :=
  vocabulary.units.find? symbol

/-- The prefix with a symbol. -/
def findPrefix (vocabulary : Vocabulary) (symbol : Text) : Option PrefixEntry :=
  vocabulary.prefixes.find? symbol

/-- It is acknowledged that a unit symbol may also read as a prefix and a unit. -/
def Acknowledges (vocabulary : Vocabulary) (symbol : Text) : Prop :=
  symbol ∈ vocabulary.acknowledged

instance (vocabulary : Vocabulary) (symbol : Text) : Decidable (vocabulary.Acknowledges symbol) :=
  inferInstanceAs (Decidable (_ ∈ _))

/-- The units in the order of declaration. -/
def unitEntries (vocabulary : Vocabulary) : List UnitEntry :=
  vocabulary.unitOrder.filterMap vocabulary.findUnit

/-- The prefixes in the order of declaration. -/
def prefixEntries (vocabulary : Vocabulary) : List PrefixEntry :=
  vocabulary.prefixOrder.filterMap vocabulary.findPrefix

/-- The categories in byte order. -/
def categories (vocabulary : Vocabulary) : List Text :=
  vocabulary.groups.keys

/-- The symbols under a category, in the order of declaration. -/
def symbolsIn (vocabulary : Vocabulary) (category : Text) : List Text :=
  (vocabulary.groups.find? category).getD []

/-- The units under a category, in the order of declaration. A symbol without unit would leave a gap
in it. -/
def unitsIn (vocabulary : Vocabulary) (category : Text) : List (Option UnitEntry) :=
  (vocabulary.symbolsIn category).map vocabulary.findUnit

end Vocabulary

end Metrology
