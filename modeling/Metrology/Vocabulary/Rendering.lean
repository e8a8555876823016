import Metrology.Error
import Metrology.Numeric.Display

/-!
# Writing dimensions and vocabularies

A dimension is written with the coherent units of its base dimensions: for each of them the first
declared unit of scale one that has just that dimension, and the identifier of the base dimension
when there is no such unit. The listing of a vocabulary has its prefixes and then its units by
category. Writing looks up the symbols that the vocabulary lists, and fails at one without an entry.
-/

set_option autoImplicit false
set_option relaxedAutoImplicit false

namespace Metrology

/-- A unit of scale one whose dimension is a base dimension. -/
def UnitEntry.IsCoherentFor (entry : UnitEntry) (identifier : Text) : Prop :=
  entry.scale = 1.0 ∧ entry.dimension.entries = [(identifier, 1)]

instance (entry : UnitEntry) (identifier : Text) : Decidable (entry.IsCoherentFor identifier) :=
  inferInstanceAs (Decidable (_ ∧ _))

namespace Vocabulary

/-- An entry that was looked up, which has to be there. -/
def present {α : Type} : Option α → Except Error α
  | some entry => .ok entry
  | none => .error .missingEntry

/-- The first unit, among those with given symbols, that is coherent for a base dimension. -/
def findCoherent (vocabulary : Vocabulary) (identifier : Text) :
    List Text → Except Error (Option UnitEntry)
  | [] => .ok none
  | symbol :: rest =>
    (present (vocabulary.findUnit symbol)).bind fun entry ↦
      if entry.IsCoherentFor identifier then .ok (some entry)
      else vocabulary.findCoherent identifier rest

/-- The coherent unit of a base dimension, which has to have a name. -/
def coherentUnit (vocabulary : Vocabulary) (identifier : Text) :
    Except Error (Option UnitEntry) :=
  if identifier = [] then .error (.dimension .emptyIdentifier)
  else vocabulary.findCoherent identifier vocabulary.unitOrder

/-- The name of a base dimension in writing: the symbol of its coherent unit if it has one. -/
def baseName (vocabulary : Vocabulary) (identifier : Text) : Except Error Text :=
  (vocabulary.coherentUnit identifier).map fun coherent ↦
    (coherent.map UnitEntry.symbol).getD identifier

/-- A base dimension of a dimension in writing, with its exponent. -/
def powerText (vocabulary : Vocabulary) (dimension : Dimension) (identifier : Text) :
    Except Error Text :=
  (vocabulary.baseName identifier).map (dimension.powerText identifier)

/-- The text of a dimension in coherent units; empty for the dimension of a plain number. -/
def render (vocabulary : Vocabulary) (dimension : Dimension) : Except Error Text :=
  (dimension.canonicalOrder.mapM (vocabulary.powerText dimension)).map (utf8 " ").intercalate

/-- A line that sets off a heading. -/
def rule : Text :=
  List.replicate 40 45 ++ utf8 "\n"

/-- The line of a prefix. -/
def prefixLine (entry : PrefixEntry) : Text :=
  Text.padRight 8 entry.symbol ++ Text.padRight 12 entry.name ++ utf8 " = " ++
    Display.general entry.scale ++ utf8 "\n"

/-- The line of a unit. -/
def unitLine (vocabulary : Vocabulary) (entry : UnitEntry) : Except Error Text :=
  (vocabulary.render entry.dimension).map fun rendered ↦
    Text.padRight 8 entry.symbol ++ Text.padRight 20 entry.name ++ utf8 " = " ++
      Display.general entry.scale ++ utf8 " " ++ rendered ++ utf8 " (" ++ entry.dimension.toText ++
      utf8 ")\n"

/-- The line of the prefix under a symbol. -/
def prefixLineOf (vocabulary : Vocabulary) (symbol : Text) : Except Error Text :=
  (present (vocabulary.findPrefix symbol)).map prefixLine

/-- The line of the unit under a symbol. -/
def unitLineOf (vocabulary : Vocabulary) (symbol : Text) : Except Error Text :=
  (present (vocabulary.findUnit symbol)).bind vocabulary.unitLine

/-- The lines of a category. -/
def categoryListing (vocabulary : Vocabulary) (category : Text) : Except Error Text :=
  ((vocabulary.symbolsIn category).mapM vocabulary.unitLineOf).map fun lines ↦
    utf8 "Category: " ++ category ++ utf8 "\n" ++ rule ++ lines.flatten ++ utf8 "\n"

/-- The lines of the prefixes. -/
def prefixListing (vocabulary : Vocabulary) : Except Error Text :=
  (vocabulary.prefixOrder.mapM vocabulary.prefixLineOf).map fun lines ↦
    utf8 "Prefixes\n" ++ rule ++ lines.flatten ++ utf8 "\n"

/-- The listing of a vocabulary. -/
def listing (vocabulary : Vocabulary) : Except Error Text :=
  vocabulary.prefixListing.bind fun prefixes ↦
    (vocabulary.categories.mapM vocabulary.categoryListing).map fun listings ↦
      prefixes ++ listings.flatten

end Vocabulary

end Metrology
