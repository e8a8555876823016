import Metrology.Vocabulary.Basic
import Metrology.Numeric.Display

/-!
# Building a vocabulary

A vocabulary is built by declarations of units, prefixes and acknowledgements. A declaration is
refused, and changes nothing, when its symbol is empty, its scale is not a positive finite number or
its symbol is taken among the entries of its kind; `addUnit_eq_ok_iff` and `addPrefix_eq_ok_iff` say
exactly when it is accepted. `declareAll` makes one declaration after the other and stops at the
first refusal, keeping what was declared before it. A vocabulary is seeded from another by the
declarations of the other.
-/

set_option autoImplicit false
set_option relaxedAutoImplicit false

namespace Metrology

/-- What a symbol is declared as. -/
inductive EntryKind where
  | unitEntry
  | prefixEntry
  deriving DecidableEq

/-- The word for a kind of entry. -/
def EntryKind.description : EntryKind → Text
  | unitEntry => utf8 "unit"
  | prefixEntry => utf8 "prefix"

/-- Why a declaration is refused. -/
inductive RegistrationError where
  | emptySymbol (kind : EntryKind)
  | invalidScale (kind : EntryKind) (symbol : Text) (scale : Float)
  | duplicateSymbol (kind : EntryKind) (symbol : Text)
  /-- Any other reason, in words. -/
  | described (text symbol : Text)
  deriving DecidableEq

namespace RegistrationError

/-- The message of a registration error. -/
def message : RegistrationError → Text
  | emptySymbol kind => kind.description ++ utf8 " symbol cannot be empty"
  | invalidScale kind symbol scale =>
    utf8 "Invalid scale factor " ++ Display.general scale ++ utf8 " for " ++ kind.description ++
      utf8 " '" ++ symbol ++ utf8 "'"
  | duplicateSymbol kind symbol =>
    utf8 "Duplicate " ++ kind.description ++ utf8 " symbol: " ++ symbol
  | described text _ => text

/-- The symbol that was refused. -/
def symbol : RegistrationError → Text
  | emptySymbol _ => []
  | invalidScale _ symbol _ => symbol
  | duplicateSymbol _ symbol => symbol
  | described _ symbol => symbol

end RegistrationError

/-- A step in building a vocabulary. -/
inductive Declaration where
  | unitEntry (entry : UnitEntry)
  | prefixEntry (entry : PrefixEntry)
  /-- The unit with this symbol may also read as a prefix and a unit. -/
  | acknowledgement (symbol : Text)
  deriving DecidableEq

/-- The scale of an entry is a positive finite number. -/
def ValidScale (scale : Float) : Prop :=
  scale.isFinite ∧ 0.0 < scale

instance (scale : Float) : Decidable (ValidScale scale) :=
  inferInstanceAs (Decidable (_ ∧ _))

namespace Vocabulary

/-- Checks a symbol and scale to be declared; `taken` says that the symbol is in use. -/
def checkEntry (kind : EntryKind) (symbol : Text) (scale : Float) (taken : Bool) :
    Except RegistrationError Unit :=
  if symbol = [] then .error (.emptySymbol kind)
  else if ¬ ValidScale scale then .error (.invalidScale kind symbol scale)
  else if taken then .error (.duplicateSymbol kind symbol)
  else .ok ()

/-- A vocabulary with a further unit, after all others. -/
def withUnit (vocabulary : Vocabulary) (entry : UnitEntry) : Vocabulary :=
  { vocabulary with
    units := vocabulary.units.put entry.symbol entry
    unitOrder := vocabulary.unitOrder ++ [entry.symbol]
    groups := vocabulary.groups.append entry.group entry.symbol }

/-- A vocabulary with a further prefix, after all others. -/
def withPrefix (vocabulary : Vocabulary) (entry : PrefixEntry) : Vocabulary :=
  { vocabulary with
    prefixes := vocabulary.prefixes.put entry.symbol entry
    prefixOrder := vocabulary.prefixOrder ++ [entry.symbol]
    longestPrefix := max vocabulary.longestPrefix entry.symbol.length }

/-- Adds a unit after those declared before. -/
def addUnit (vocabulary : Vocabulary) (entry : UnitEntry) : Except RegistrationError Vocabulary :=
  (checkEntry .unitEntry entry.symbol entry.scale (vocabulary.findUnit entry.symbol).isSome).map
    fun _ ↦ vocabulary.withUnit entry

/-- Adds a prefix after those declared before. -/
def addPrefix (vocabulary : Vocabulary) (entry : PrefixEntry) :
    Except RegistrationError Vocabulary :=
  (checkEntry .prefixEntry entry.symbol entry.scale (vocabulary.findPrefix entry.symbol).isSome).map
    fun _ ↦ vocabulary.withPrefix entry

/-- Acknowledges that a unit symbol may also read as a prefix and a unit. -/
def acknowledge (vocabulary : Vocabulary) (symbol : Text) : Vocabulary :=
  { vocabulary with acknowledged := vocabulary.acknowledged.insert symbol }

/-- Makes one declaration. -/
def declare (vocabulary : Vocabulary) : Declaration → Except RegistrationError Vocabulary
  | .unitEntry entry => vocabulary.addUnit entry
  | .prefixEntry entry => vocabulary.addPrefix entry
  | .acknowledgement symbol => .ok (vocabulary.acknowledge symbol)

/-- The state after one declaration, and why it was refused if it was. -/
def attempt (vocabulary : Vocabulary) (declaration : Declaration) :
    Vocabulary × Option RegistrationError :=
  match vocabulary.declare declaration with
  | .ok result => (result, none)
  | .error error => (vocabulary, some error)

/-- Makes declarations up to the first that is refused. -/
def declareAll (vocabulary : Vocabulary) :
    List Declaration → Vocabulary × Option RegistrationError
  | [] => (vocabulary, none)
  | declaration :: rest =>
    match vocabulary.attempt declaration with
    | (result, none) => result.declareAll rest
    | (result, some error) => (result, some error)

/-- The declaration of a unit, followed by its acknowledgement if it has one. -/
def unitDeclarations (vocabulary : Vocabulary) (entry : UnitEntry) : List Declaration :=
  if vocabulary.Acknowledges entry.symbol then
    [.unitEntry entry, .acknowledgement entry.symbol]
  else [.unitEntry entry]

/-- The declarations that a vocabulary is copied by: its prefixes, then its units with their
acknowledgements. -/
def declarations (vocabulary : Vocabulary) : List Declaration :=
  vocabulary.prefixEntries.map .prefixEntry ++
    vocabulary.unitEntries.flatMap vocabulary.unitDeclarations

/-- Adds the entries of another vocabulary, up to the first that is refused. -/
def seed (vocabulary other : Vocabulary) : Vocabulary × Option RegistrationError :=
  vocabulary.declareAll other.declarations

theorem checkEntry_eq_ok_iff {kind : EntryKind} {symbol : Text} {scale : Float} {taken : Bool} :
    checkEntry kind symbol scale taken = .ok () ↔
      symbol ≠ [] ∧ ValidScale scale ∧ taken = false := by
  unfold checkEntry
  split
  · simp_all
  · split
    · simp_all
    · split <;> simp_all

theorem addUnit_eq_ok_iff {vocabulary result : Vocabulary} {entry : UnitEntry} :
    vocabulary.addUnit entry = .ok result ↔
      (entry.symbol ≠ [] ∧ ValidScale entry.scale ∧ vocabulary.findUnit entry.symbol = none) ∧
        vocabulary.withUnit entry = result := by
  have hcheck := @checkEntry_eq_ok_iff .unitEntry entry.symbol entry.scale
    (vocabulary.findUnit entry.symbol).isSome
  rw [Option.isSome_eq_false_iff, Option.isNone_iff_eq_none] at hcheck
  rw [addUnit, ← hcheck]
  cases checkEntry _ _ _ _ <;> simp [Except.map]

theorem addPrefix_eq_ok_iff {vocabulary result : Vocabulary} {entry : PrefixEntry} :
    vocabulary.addPrefix entry = .ok result ↔
      (entry.symbol ≠ [] ∧ ValidScale entry.scale ∧ vocabulary.findPrefix entry.symbol = none) ∧
        vocabulary.withPrefix entry = result := by
  have hcheck := @checkEntry_eq_ok_iff .prefixEntry entry.symbol entry.scale
    (vocabulary.findPrefix entry.symbol).isSome
  rw [Option.isSome_eq_false_iff, Option.isNone_iff_eq_none] at hcheck
  rw [addPrefix, ← hcheck]
  cases checkEntry _ _ _ _ <;> simp [Except.map]

end Vocabulary

end Metrology
