import Metrology.Proofs.Expression.Meaning
import Metrology.Proofs.Vocabulary.Resolution

/-!
# What further declarations do to the readings there are

A vocabulary that grows keeps its entries (`Grows.extends`), so a unit keeps its reading and every
split of a symbol stays a split. A symbol that is read as a prefix and a unit may still get another
reading: a unit of its own name comes before all splits, and a declaration adds splits, of which one
with a longer prefix comes first. `Replaces` lists these cases, and no other reading changes
(`WellFormed.resolve_declare_of_not_replaces`). Building a vocabulary is no help here, as it checks
the symbols of units only. A text has its quantity in the larger vocabulary too when each of its
symbols keeps its reading (`parse_eq_ok_of_resolve`).
-/

set_option autoImplicit false
set_option relaxedAutoImplicit false

namespace Metrology

/-- A symbol is among the tokens of a text. -/
def Text.Mentions (text symbol : Text) : Prop :=
  ∃ tokens token, Token.ofText text = .ok tokens ∧ token ∈ tokens ∧ token.kind = .symbol ∧
    token.text = symbol

namespace Vocabulary

/-! ### Entries are kept -/

/-- The units and prefixes of a vocabulary are those of another as well. -/
structure Extends (first second : Vocabulary) : Prop where
  findUnit_eq : ∀ {symbol entry}, first.findUnit symbol = some entry →
    second.findUnit symbol = some entry
  findPrefix_eq : ∀ {symbol entry}, first.findPrefix symbol = some entry →
    second.findPrefix symbol = some entry

theorem Extends.refl (vocabulary : Vocabulary) : Extends vocabulary vocabulary :=
  ⟨id, id⟩

theorem Extends.trans {first second third : Vocabulary} (hfirst : Extends first second)
    (hsecond : Extends second third) : Extends first third :=
  ⟨fun hfind ↦ hsecond.findUnit_eq (hfirst.findUnit_eq hfind),
    fun hfind ↦ hsecond.findPrefix_eq (hfirst.findPrefix_eq hfind)⟩

variable {vocabulary result : Vocabulary} {declaration : Declaration}

/-- The units after a declaration are those before it, and the unit that it declares. -/
theorem findUnit_declare_iff (haccepted : vocabulary.declare declaration = .ok result)
    {symbol : Text} {entry : UnitEntry} :
    result.findUnit symbol = some entry ↔
      vocabulary.findUnit symbol = some entry ∨
        declaration = .unitEntry entry ∧ symbol = entry.symbol := by
  have hresult := (declare_eq_ok_iff vocabulary).mp haccepted
  cases declaration with
  | unitEntry added =>
    obtain ⟨⟨_, _, hfree⟩, rfl⟩ := hresult
    rw [Declaration.unitEntry.injEq]
    refine (Index.find?_put_eq_some_iff hfree).trans (or_congr Iff.rfl ?_)
    exact and_congr_right fun heq ↦ by rw [heq]
  | prefixEntry added =>
    obtain ⟨_, rfl⟩ := hresult
    simp
  | acknowledgement other =>
    subst hresult
    simp

/-- The prefixes after a declaration are those before it, and the prefix that it declares. -/
theorem findPrefix_declare_iff (haccepted : vocabulary.declare declaration = .ok result)
    {symbol : Text} {entry : PrefixEntry} :
    result.findPrefix symbol = some entry ↔
      vocabulary.findPrefix symbol = some entry ∨
        declaration = .prefixEntry entry ∧ symbol = entry.symbol := by
  have hresult := (declare_eq_ok_iff vocabulary).mp haccepted
  cases declaration with
  | unitEntry added =>
    obtain ⟨_, rfl⟩ := hresult
    simp
  | prefixEntry added =>
    obtain ⟨⟨_, _, hfree⟩, rfl⟩ := hresult
    rw [Declaration.prefixEntry.injEq]
    refine (Index.find?_put_eq_some_iff hfree).trans (or_congr Iff.rfl ?_)
    exact and_congr_right fun heq ↦ by rw [heq]
  | acknowledgement other =>
    subst hresult
    simp

theorem extends_declare (haccepted : vocabulary.declare declaration = .ok result) :
    vocabulary.Extends result :=
  ⟨fun hfind ↦ (findUnit_declare_iff haccepted).mpr (.inl hfind),
    fun hfind ↦ (findPrefix_declare_iff haccepted).mpr (.inl hfind)⟩

theorem Grows.extends {first second : Vocabulary} (hgrows : Grows first second) :
    Extends first second := by
  induction hgrows with
  | refl => exact .refl _
  | step _ accepted ih => exact ih.trans (extends_declare accepted)

/-- A unit is read as itself. -/
theorem resolve_of_findUnit {symbol : Text} {entry : UnitEntry}
    (hfind : vocabulary.findUnit symbol = some entry) :
    vocabulary.resolve symbol = .ok (.exact entry) := by
  rw [resolve, hfind]

/-! ### Splits are added -/

/-- A declaration puts a prefix and a unit together: its unit under a prefix there is, or its prefix
before a unit there is. -/
def Adds (vocabulary : Vocabulary) (declaration : Declaration) (first : PrefixEntry)
    (second : UnitEntry) : Prop :=
  (vocabulary.findPrefix first.symbol = some first ∧ declaration = .unitEntry second) ∨
    (declaration = .prefixEntry first ∧ vocabulary.findUnit second.symbol = some second)

/-- A symbol that is read as a prefix and a unit gets another reading by a declaration: as the unit
declared under its name, or with a longer prefix. -/
inductive Replaces (vocabulary : Vocabulary) (symbol : Text) (reading : Reading) :
    Declaration → Reading → Prop
  | byName {entry : UnitEntry} (isPrefixed : reading.prefixSymbol ≠ [])
      (eq_symbol : symbol = entry.symbol) :
      Replaces vocabulary symbol reading (.unitEntry entry) (.exact entry)
  | byUnit {entry : UnitEntry} {first : PrefixEntry} (isPrefixed : reading.prefixSymbol ≠ [])
      (findPrefix_eq : vocabulary.findPrefix first.symbol = some first)
      (eq_append : symbol = first.symbol ++ entry.symbol)
      (longer : reading.prefixSymbol.length < first.symbol.length) :
      Replaces vocabulary symbol reading (.unitEntry entry) (.prefixed first entry)
  | byPrefix {entry : PrefixEntry} {second : UnitEntry} (isPrefixed : reading.prefixSymbol ≠ [])
      (findUnit_eq : vocabulary.findUnit second.symbol = some second)
      (eq_append : symbol = entry.symbol ++ second.symbol)
      (longer : reading.prefixSymbol.length < entry.symbol.length) :
      Replaces vocabulary symbol reading (.prefixEntry entry) (.prefixed entry second)

/-- The splits after a declaration are those before it and those that it adds. -/
theorem splits_declare_iff (haccepted : vocabulary.declare declaration = .ok result)
    {symbol : Text} {first : PrefixEntry} {second : UnitEntry} :
    result.Splits symbol first second ↔
      vocabulary.Splits symbol first second ∨
        vocabulary.Adds declaration first second ∧ symbol = first.symbol ++ second.symbol := by
  constructor
  · rintro ⟨hfirst, hsecond, happend⟩
    rcases (findPrefix_declare_iff haccepted).mp hfirst with hold | ⟨hnew, _⟩ <;>
      rcases (findUnit_declare_iff haccepted).mp hsecond with hold' | ⟨hnew', _⟩
    · exact .inl ⟨hold, hold', happend⟩
    · exact .inr ⟨.inl ⟨hold, hnew'⟩, happend⟩
    · exact .inr ⟨.inr ⟨hnew, hold'⟩, happend⟩
    · cases hnew.symm.trans hnew'
  · have hextends := extends_declare haccepted
    rintro (⟨hfirst, hsecond, happend⟩ | ⟨⟨hfirst, hnew⟩ | ⟨hnew, hsecond⟩, happend⟩)
    · exact ⟨hextends.findPrefix_eq hfirst, hextends.findUnit_eq hsecond, happend⟩
    · exact ⟨hextends.findPrefix_eq hfirst,
        (findUnit_declare_iff haccepted).mpr (.inr ⟨hnew, rfl⟩), happend⟩
    · exact ⟨(findPrefix_declare_iff haccepted).mpr (.inr ⟨hnew, rfl⟩),
        hextends.findUnit_eq hsecond, happend⟩

/-- Of one symbol a declaration adds splits with one length of prefix only. -/
theorem length_eq_of_adds {first other : PrefixEntry} {second last : UnitEntry}
    (hfirst : vocabulary.Adds declaration first second)
    (hother : vocabulary.Adds declaration other last)
    (happend : first.symbol ++ second.symbol = other.symbol ++ last.symbol) :
    other.symbol.length = first.symbol.length := by
  rcases hfirst with ⟨_, rfl⟩ | ⟨rfl, _⟩
  · rcases hother with ⟨_, hsame⟩ | ⟨hsame, _⟩
    · cases hsame
      rw [List.append_cancel_right happend]
    · cases hsame
  · rcases hother with ⟨_, hsame⟩ | ⟨hsame, _⟩
    · cases hsame
    · cases hsame
      rfl

/-- A symbol becomes a unit only when a unit is declared under it. -/
theorem findUnit_declare_eq_none (haccepted : vocabulary.declare declaration = .ok result)
    {symbol : Text} (hfree : vocabulary.findUnit symbol = none)
    (hother : ∀ entry, declaration = .unitEntry entry → symbol ≠ entry.symbol) :
    result.findUnit symbol = none := by
  rw [Option.eq_none_iff_forall_ne_some]
  intro entry hfind
  rcases (findUnit_declare_iff haccepted).mp hfind with hold | ⟨hdeclares, hsymbol⟩
  · rw [hfree] at hold
    cases hold
  · exact hother entry hdeclares hsymbol

namespace WellFormed

variable (hvocabulary : vocabulary.WellFormed)

include hvocabulary

/-- A reading with a prefix is the split with the longest prefix of a symbol that is no unit. -/
theorem exists_splits_of_resolve {symbol : Text} {reading : Reading}
    (hreading : vocabulary.resolve symbol = .ok reading) (hprefixed : reading.prefixSymbol ≠ []) :
    vocabulary.findUnit symbol = none ∧
      ∃ first second, vocabulary.Splits symbol first second ∧
        (∀ first' second', vocabulary.Splits symbol first' second' →
          first'.symbol.length ≤ first.symbol.length) ∧
        .prefixed first second = reading := by
  cases hunit : vocabulary.findUnit symbol with
  | some entry =>
    rw [resolve_of_findUnit hunit] at hreading
    cases hreading
    exact absurd rfl hprefixed
  | none => exact ⟨rfl, (hvocabulary.resolve_eq_ok_iff_of_findUnit_eq_none hunit).mp hreading⟩

/-- An added split with a longer prefix comes before all splits there are. -/
theorem resolve_declare_of_adds (haccepted : vocabulary.declare declaration = .ok result)
    {symbol : Text} {reading : Reading} (hreading : vocabulary.resolve symbol = .ok reading)
    (hprefixed : reading.prefixSymbol ≠ []) {first : PrefixEntry} {second : UnitEntry}
    (hadds : vocabulary.Adds declaration first second)
    (happend : symbol = first.symbol ++ second.symbol)
    (hlonger : reading.prefixSymbol.length < first.symbol.length) :
    result.resolve symbol = .ok (.prefixed first second) := by
  have hresult := hvocabulary.declare haccepted
  obtain ⟨hunit, old, _, _, hlongest, rfl⟩ :=
    hvocabulary.exists_splits_of_resolve hreading hprefixed
  have hsplits := (splits_declare_iff haccepted).mpr (.inr ⟨hadds, happend⟩)
  have hfree : result.findUnit symbol = none := by
    refine findUnit_declare_eq_none haccepted hunit fun entry hdeclares hsymbol ↦ ?_
    rcases hadds with ⟨_, hsecond⟩ | ⟨hfirst, _⟩
    · cases hsecond.symm.trans hdeclares
      exact (hresult.prefix_valid _ _ hsplits.findPrefix_eq).2.1
        (List.append_left_eq_self.mp (happend.symm.trans hsymbol))
    · cases hfirst.symm.trans hdeclares
  refine (hresult.resolve_eq_ok_iff_of_findUnit_eq_none hfree).mpr
    ⟨first, second, hsplits, fun first' second' hsplits' ↦ ?_, rfl⟩
  rcases (splits_declare_iff haccepted).mp hsplits' with hold | ⟨hadds', happend'⟩
  · exact Nat.le_trans (hlongest first' second' hold) (Nat.le_of_lt hlonger)
  · exact Nat.le_of_eq (length_eq_of_adds hadds hadds' (happend.symm.trans happend'))

/-- A reading that is replaced gives way to the other. -/
theorem resolve_declare_of_replaces (haccepted : vocabulary.declare declaration = .ok result)
    {symbol : Text} {reading other : Reading} (hreading : vocabulary.resolve symbol = .ok reading)
    (hreplaces : vocabulary.Replaces symbol reading declaration other) :
    result.resolve symbol = .ok other := by
  cases hreplaces with
  | byName _ hsymbol =>
    exact resolve_of_findUnit ((findUnit_declare_iff haccepted).mpr (.inr ⟨rfl, hsymbol⟩))
  | byUnit hprefixed hfirst happend hlonger =>
    exact hvocabulary.resolve_declare_of_adds haccepted hreading hprefixed (.inl ⟨hfirst, rfl⟩)
      happend hlonger
  | byPrefix hprefixed hsecond happend hlonger =>
    exact hvocabulary.resolve_declare_of_adds haccepted hreading hprefixed (.inr ⟨rfl, hsecond⟩)
      happend hlonger

/-- A reading that is not replaced stays. -/
theorem resolve_declare_of_not_replaces (haccepted : vocabulary.declare declaration = .ok result)
    {symbol : Text} {reading : Reading} (hreading : vocabulary.resolve symbol = .ok reading)
    (hkept : ∀ other, ¬ vocabulary.Replaces symbol reading declaration other) :
    result.resolve symbol = .ok reading := by
  cases hunit : vocabulary.findUnit symbol with
  | some entry =>
    rw [← hreading, resolve_of_findUnit hunit,
      resolve_of_findUnit ((extends_declare haccepted).findUnit_eq hunit)]
  | none =>
    obtain ⟨first, second, hsplits, hlongest, rfl⟩ :=
      (hvocabulary.resolve_eq_ok_iff_of_findUnit_eq_none hunit).mp hreading
    have hprefixed : (Reading.prefixed first second).prefixSymbol ≠ [] :=
      (hvocabulary.prefix_valid _ _ hsplits.findPrefix_eq).2.1
    have hfree : result.findUnit symbol = none := by
      refine findUnit_declare_eq_none haccepted hunit fun entry hdeclares hsymbol ↦ ?_
      subst hdeclares
      exact hkept _ (.byName hprefixed hsymbol)
    -- an added split wins only with a longer prefix, and then it replaces the reading
    refine ((hvocabulary.declare haccepted).resolve_eq_ok_iff_of_findUnit_eq_none hfree).mpr
      ⟨first, second, (splits_declare_iff haccepted).mpr (.inl hsplits),
        fun first' second' hsplits' ↦ ?_, rfl⟩
    rcases (splits_declare_iff haccepted).mp hsplits' with
      hold | ⟨⟨hfirst, rfl⟩ | ⟨rfl, hsecond⟩, happend⟩
    · exact hlongest first' second' hold
    · exact Nat.le_of_not_lt fun hlonger ↦ hkept _ (.byUnit hprefixed hfirst happend hlonger)
    · exact Nat.le_of_not_lt fun hlonger ↦ hkept _ (.byPrefix hprefixed hsecond happend hlonger)

end WellFormed

/-! ### Texts keep their quantities -/

/-- A declaration replaces no reading of a symbol. -/
def Spares (vocabulary : Vocabulary) (declaration : Declaration) (symbol : Text) : Prop :=
  ∀ reading other, vocabulary.resolve symbol = .ok reading →
    ¬ vocabulary.Replaces symbol reading declaration other

/-- A vocabulary comes from another by accepted declarations, none of which replaces the reading
that a symbol of a text has by then. -/
inductive GrowsSparing (text : Text) : Vocabulary → Vocabulary → Prop
  | refl (vocabulary : Vocabulary) : GrowsSparing text vocabulary vocabulary
  | step {first second third : Vocabulary} {declaration : Declaration}
      (grown : GrowsSparing text first second)
      (accepted : second.declare declaration = .ok third)
      (spares : ∀ symbol, text.Mentions symbol → second.Spares declaration symbol) :
      GrowsSparing text first third

theorem GrowsSparing.grows {text : Text} {first second : Vocabulary}
    (hgrows : GrowsSparing text first second) : Grows first second := by
  induction hgrows with
  | refl => exact .refl _
  | step _ accepted _ ih => exact .step ih accepted

/-- The symbols of a text keep their readings. -/
theorem GrowsSparing.resolve_eq {text symbol : Text} {first second : Vocabulary} {reading : Reading}
    (hgrows : GrowsSparing text first second) (hfirst : first.WellFormed)
    (hsymbol : text.Mentions symbol) (hreading : first.resolve symbol = .ok reading) :
    second.resolve symbol = .ok reading := by
  induction hgrows with
  | refl => exact hreading
  | step grown accepted spares ih =>
    have hmiddle := grown.grows.wellFormed hfirst
    exact hmiddle.resolve_declare_of_not_replaces accepted ih fun other ↦
      spares symbol hsymbol reading other ih

/-- The quantity of a text depends on the vocabulary by the readings of its symbols alone. -/
theorem parse_eq_ok_of_resolve {first second : Vocabulary} {text : Text} {quantity : Quantity}
    (hquantity : first.parse text = .ok quantity)
    (hsame : ∀ symbol reading, text.Mentions symbol → first.resolve symbol = .ok reading →
      second.resolve symbol = .ok reading) :
    second.parse text = .ok quantity := by
  obtain ⟨body, final, number, meanings, htokens, hfinal, hexpression, hreadings, hmeaning⟩ :=
    parse_eq_ok_iff.mp hquantity
  have hmentions : ∀ factor ∈ meanings.map Meaning.factor,
      text.Mentions factor.occurrence.symbol :=
    (hexpression.forall_symbol_iff text.Mentions).mp fun token htoken hsymbol ↦
      ⟨_, token, htokens, List.mem_append_left _ htoken, hsymbol, rfl⟩
  refine parse_eq_ok_iff.mpr ⟨body, final, number, meanings, htokens, hfinal, hexpression,
    fun meaning hmem ↦ ?_, hmeaning⟩
  exact hsame _ _ (hmentions _ (List.mem_map_of_mem hmem)) (hreadings meaning hmem)

/-- In every reachable vocabulary, after one accepted declaration, a symbol that had a reading has
the reading that replaces it, and the same one as before when none does. Whatever is done later, a
unit is read as itself. A text has the same quantity after a declaration that replaces no reading of
its symbols, and so after any number of these. -/
theorem Reachable.extension_spec {vocabulary : Vocabulary} (hreachable : vocabulary.Reachable) :
    (∀ declaration result, vocabulary.declare declaration = .ok result →
        ∀ symbol reading, vocabulary.resolve symbol = .ok reading →
          (∀ other, vocabulary.Replaces symbol reading declaration other →
              result.resolve symbol = .ok other) ∧
            ((∀ other, ¬ vocabulary.Replaces symbol reading declaration other) →
              result.resolve symbol = .ok reading)) ∧
      (∀ later, Evolves vocabulary later → ∀ symbol entry,
        vocabulary.findUnit symbol = some entry → later.resolve symbol = .ok (.exact entry)) ∧
      ∀ text quantity, vocabulary.parse text = .ok quantity →
        (∀ declaration result, vocabulary.declare declaration = .ok result →
            (∀ symbol, text.Mentions symbol → vocabulary.Spares declaration symbol) →
            result.parse text = .ok quantity) ∧
          ∀ later, GrowsSparing text vocabulary later → later.parse text = .ok quantity := by
  have hvocabulary := hreachable.wellFormed
  have hparse : ∀ text quantity, vocabulary.parse text = .ok quantity →
      ∀ later, GrowsSparing text vocabulary later → later.parse text = .ok quantity :=
    fun text quantity hquantity later hgrows ↦
      parse_eq_ok_of_resolve hquantity fun symbol reading ↦ hgrows.resolve_eq hvocabulary
  refine ⟨fun declaration result haccepted symbol reading hreading ↦ ⟨fun other hreplaces ↦ ?_, ?_⟩,
    fun later hlater symbol entry hfind ↦ ?_, fun text quantity hquantity ↦ ⟨?_, ?_⟩⟩
  · exact hvocabulary.resolve_declare_of_replaces haccepted hreading hreplaces
  · exact hvocabulary.resolve_declare_of_not_replaces haccepted hreading
  · exact resolve_of_findUnit (hlater.grows.extends.findUnit_eq hfind)
  · intro declaration result haccepted hspares
    exact hparse text quantity hquantity result (.step (.refl vocabulary) haccepted hspares)
  · exact hparse text quantity hquantity

/-- A unit whose symbol is read as the prefix kibi and the byte before it is declared. -/
def kilobyte : UnitEntry :=
  ⟨utf8 "KiB", 1000.0, .one, utf8 "kilobyte", []⟩

theorem extension_spec_kilobyte :
    kibibytes.Reachable ∧ ∃ result, kibibytes.declare (.unitEntry kilobyte) = .ok result ∧
      kibibytes.resolve (utf8 "KiB") = .ok ⟨utf8 "Ki", utf8 "B", 1024.0 * 1.0, .one⟩ ∧
      result.resolve (utf8 "KiB") = .ok (.exact kilobyte) := by
  have hreading : kibibytes.resolve (utf8 "KiB") =
      .ok ⟨utf8 "Ki", utf8 "B", 1024.0 * 1.0, .one⟩ := rfl
  have haccepted : kibibytes.declare (.unitEntry kilobyte) =
      .ok (kibibytes.withUnit kilobyte) := rfl
  have hkept := (Reachable.extension_spec reachable_kibibytes).1 _ _ haccepted _ _ hreading
  exact ⟨reachable_kibibytes, _, haccepted, hreading, hkept.1 _ (.byName (by decide) rfl)⟩

end Vocabulary

end Metrology
