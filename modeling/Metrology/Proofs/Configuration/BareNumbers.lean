import Metrology.Configuration.Units
import Metrology.Proofs.Vocabulary.Extension
import Metrology.SI.Kinds

/-!
# Bare numbers among values with units

A value that is to be counted in a unit may be a bare number, which is counted in the unit already.
Whether it is one is told from the dimension of the value. An expression without symbols is a number
alone (`Vocabulary.exists_isBare_of_parse`) and has no dimension, so bare numbers are answered as
they are. Expressions of units that cancel and units without dimension have no dimension either, and
are answered by their magnitude in the same way (`Configuration.Counts`).
-/

set_option autoImplicit false
set_option relaxedAutoImplicit false

namespace Metrology

/-! ### Expressions without symbols -/

theorem Grammar.Expression.ne_nil {body : List Token} {number : Option Float}
    {factors : List Factor} (hexpression : Expression body number factors) : body ≠ [] := by
  cases hexpression with
  | terms hterm _ => cases hterm; simp
  | _ => simp

/-- A text is a number alone. -/
def Text.IsBare (text : Text) (number : Float) : Prop :=
  ∃ token final integer, Token.ofText text = .ok [token, final] ∧
    token.kind = .number number integer ∧ final.kind = .finish

namespace Vocabulary

variable {vocabulary : Vocabulary} {text : Text}

/-- The empty text stands for nothing. -/
theorem parse_nil_ne_ok (quantity : Quantity) : vocabulary.parse [] ≠ .ok quantity := by
  intro hparse
  obtain ⟨body, final, _, meanings, htokens, _, hexpression, _, _, _⟩ := parse_eq_ok_iff.mp hparse
  obtain ⟨_, hread, last, rfl, _⟩ := Lexer.ReadsAs.nil.exists_ofText
  rw [hread, Except.ok.injEq, ← List.nil_append [last]] at htokens
  exact hexpression.ne_nil (List.append_inj' htokens rfl).1.symm

/-- A number alone stands for itself in every vocabulary. -/
theorem parse_of_isBare {number : Float} (hbare : text.IsBare number) :
    vocabulary.parse text = .ok (.number number) := by
  obtain ⟨token, final, integer, htokens, hnumber, hfinal⟩ := hbare
  refine parse_eq_ok_iff.mpr ⟨[token], final, some number, [], htokens, hfinal, .number hnumber,
    by simp [Meaning.Interprets], Meaning.withinRange_nil_iff.mpr ?_, rfl⟩
  intro value hvalue
  cases hvalue
  exact (Quantity.number number).inRange_exact

/-- An expression that mentions no symbol is a number alone. -/
theorem exists_isBare_of_parse {quantity : Quantity} (hparse : vocabulary.parse text = .ok quantity)
    (hsymbols : ∀ symbol, ¬ text.Mentions symbol) :
    ∃ number, text.IsBare number ∧ quantity = .number number := by
  obtain ⟨body, final, _, meanings, htokens, hfinal, hexpression, _, _, _⟩ :=
    parse_eq_ok_iff.mp hparse
  have hfactors : ∀ factor ∈ meanings.map Meaning.factor, False :=
    (hexpression.forall_symbol_iff fun _ ↦ False).mp fun token htoken hsymbol ↦
      hsymbols token.text
        ⟨_, token, htokens, List.mem_append_left [final] htoken, hsymbol, rfl⟩
  rw [List.eq_nil_iff_forall_not_mem.mpr hfactors] at hexpression
  cases hexpression with
  | @number token value integer hnumber =>
    have hbare : text.IsBare value := ⟨token, final, integer, htokens, hnumber, hfinal⟩
    rw [parse_of_isBare hbare, Except.ok.injEq] at hparse
    exact ⟨value, hbare, hparse.symm⟩

end Vocabulary

namespace Configuration

/-! ### One value -/

/-- What the answer to an expression is when it is counted in a unit. An expression of another
dimension than the unit has no answer, unless it has no dimension at all. Then it is answered by its
magnitude, as long as the unit has one, whatever symbols it mentions. -/
structure Counts (vocabulary : Vocabulary) (unit : Quantity) (text : Text) (answer : Option Float) :
    Prop where
  mismatched : ∀ quantity, vocabulary.parse text = .ok quantity →
    quantity.dimension ≠ unit.dimension → quantity.dimension ≠ .one → answer = none
  dimensionless : ∀ quantity, vocabulary.parse text = .ok quantity → quantity.dimension = .one →
    unit.dimension ≠ .one → answer = some quantity.magnitude
  bare : ∀ quantity, vocabulary.parse text = .ok quantity →
    (∀ symbol, ¬ text.Mentions symbol) → unit.dimension ≠ .one →
      ∃ number, text.IsBare number ∧ answer = some number

variable {vocabulary : Vocabulary} {heading key : Text} {unit : Quantity}

theorem convert_of_parse {text : Text} {quantity : Quantity}
    (hparse : vocabulary.parse text = .ok quantity) :
    convert vocabulary heading key unit text = convertQuantity heading key unit quantity := by
  rw [convert, hparse]
  rfl

/-- The answer of a conversion, where it has one. -/
theorem counts_convert (vocabulary : Vocabulary) (heading key : Text) (unit : Quantity)
    (text : Text) :
    Counts vocabulary unit text (convert vocabulary heading key unit text).toOption where
  mismatched quantity hparse hne hdimension := by
    rw [convert_of_parse hparse, convertQuantity, if_neg fun h ↦ hdimension h.1, if_pos hne]
    rfl
  dimensionless quantity hparse hone hunit := by
    rw [convert_of_parse hparse, convertQuantity, if_pos ⟨hone, hunit⟩]
    rfl
  bare quantity hparse hsymbols hunit := by
    obtain ⟨number, hbare, rfl⟩ := Vocabulary.exists_isBare_of_parse hparse hsymbols
    refine ⟨number, hbare, ?_⟩
    rw [convert_of_parse hparse, convertQuantity, if_pos ⟨rfl, hunit⟩]
    rfl

/-! ### Values of a configuration -/

variable {configuration : Configuration} {unitText : Text}

theorem result_doubleIn (hunit : vocabulary.parse unitText = .ok unit) (default : Float) :
    (configuration.doubleIn vocabulary heading key default unitText).result =
      (convert vocabulary heading key unit
        (configuration.textOrEmpty heading key)).toOption.getD default := by
  unfold doubleIn
  split
  · next hempty =>
    rw [hempty, convert]
    cases hparse : vocabulary.parse [] with
    | ok quantity => exact absurd hparse (Vocabulary.parse_nil_ne_ok quantity)
    | error error => rfl
  · have hconvert : (vocabulary.parse unitText).bind
        (convert vocabulary heading key · (configuration.textOrEmpty heading key)) =
          convert vocabulary heading key unit (configuration.textOrEmpty heading key) := by
      rw [hunit]
      rfl
    rw [← hconvert]
    split
    · next hnumber => rw [hnumber]; rfl
    · next herror => rw [herror]; rfl

theorem result_doublesIn (hunit : vocabulary.parse unitText = .ok unit) :
    (configuration.doublesIn vocabulary heading key unitText).result =
      (pieces (configuration.textOrEmpty heading key)).filterMap fun piece ↦
        (convert vocabulary heading key unit piece).toOption := by
  have hpiece : ∀ piece, (pieceIn vocabulary heading key unit piece).result =
      (convert vocabulary heading key unit piece).toOption := by
    intro piece
    rw [pieceIn]
    cases convert vocabulary heading key unit piece <;> rfl
  unfold doublesIn
  split
  · next hempty => rw [hempty]; rfl
  · rw [hunit]
    show ((pieces _).map _).filterMap _ = _
    rw [List.filterMap_map]
    exact List.filterMap_congr fun piece _ ↦ hpiece piece

/-- For every vocabulary and configuration, and every text of a unit. A value that is asked for in
the unit has an answer, or the default is answered in its place; a list of values is answered by the
answers to its pieces, and a piece without answer is left out. For an expression, the answer is as
`Counts` says: none when the dimensions differ, the number itself when it mentions no symbol and the
unit has a dimension, but also the magnitude of whatever has no dimension. -/
theorem counts_spec (hunit : vocabulary.parse unitText = .ok unit) (configuration : Configuration)
    (heading key : Text) :
    (∃ answer, Counts vocabulary unit (configuration.textOrEmpty heading key) answer ∧
      ∀ default, (configuration.doubleIn vocabulary heading key default unitText).result =
        answer.getD default) ∧
      ∃ answers : Text → Option Float, (∀ piece, Counts vocabulary unit piece (answers piece)) ∧
        (configuration.doublesIn vocabulary heading key unitText).result =
          (pieces (configuration.textOrEmpty heading key)).filterMap answers :=
  ⟨⟨_, counts_convert vocabulary heading key unit _, result_doubleIn hunit⟩, _,
    counts_convert vocabulary heading key unit, result_doublesIn hunit⟩

end Configuration

/-- The metre, the second, and the radian, which is a plain number. -/
def turns : Vocabulary :=
  (Vocabulary.empty.declareAll
    [.unitEntry ⟨utf8 "m", 1.0, SI.Kind.length, utf8 "metre", []⟩,
      .unitEntry ⟨utf8 "s", 1.0, SI.Kind.time, utf8 "second", []⟩,
      .unitEntry ⟨utf8 "rad", 1.0, SI.Kind.angle, utf8 "radian", []⟩]).1

/-- A length given by an angle, and a list of lengths with a time among them. -/
def travel : Configuration :=
  [⟨utf8 "path", utf8 "length", utf8 "2 rad"⟩,
    ⟨utf8 "path", utf8 "steps", utf8 "5, 2 s, 3 m"⟩].foldl Configuration.put .empty

theorem counts_spec_metre :
    turns.parse (utf8 "m") = .ok ⟨1.0, SI.Kind.length⟩ ∧
      turns.parse (utf8 "2 s") = .ok ⟨2.0, SI.Kind.time⟩ ∧
      ∃ answers : Text → Option Float,
        (travel.doublesIn turns (utf8 "path") (utf8 "steps") (utf8 "m")).result =
          [utf8 "5", utf8 "2 s", utf8 "3 m"].filterMap answers ∧
        answers (utf8 "5") = some 5.0 ∧ answers (utf8 "2 s") = none := by
  have hunit : turns.parse (utf8 "m") = .ok ⟨1.0, SI.Kind.length⟩ := by decide +kernel
  have htime : turns.parse (utf8 "2 s") = .ok ⟨2.0, SI.Kind.time⟩ := by decide +kernel
  have hfive : turns.parse (utf8 "5") = .ok (.number 5.0) := by decide +kernel
  have hpieces : Configuration.pieces (travel.textOrEmpty (utf8 "path") (utf8 "steps")) =
      [utf8 "5", utf8 "2 s", utf8 "3 m"] := by decide +kernel
  obtain ⟨_, answers, hanswers, hresult⟩ :=
    Configuration.counts_spec hunit travel (utf8 "path") (utf8 "steps")
  rw [hpieces] at hresult
  exact ⟨hunit, htime, answers, hresult,
    (hanswers _).dimensionless _ hfive rfl (by decide +kernel),
    (hanswers _).mismatched _ htime (by decide +kernel) (by decide +kernel)⟩

/-- A value that mentions a unit without dimension is answered like a bare number. -/
theorem doubleIn_radian :
    (utf8 "2 rad").Mentions (utf8 "rad") ∧
      turns.parse (utf8 "m") = .ok ⟨1.0, SI.Kind.length⟩ ∧
      turns.parse (utf8 "2 rad") = .ok ⟨2.0, SI.Kind.angle⟩ ∧ SI.Kind.angle ≠ SI.Kind.length ∧
      travel.value? (utf8 "path") (utf8 "length") = some (utf8 "2 rad") ∧
      (travel.doubleIn turns (utf8 "path") (utf8 "length") (-1.0) (utf8 "m")).result = 2.0 ∧
      (travel.doublesIn turns (utf8 "path") (utf8 "length") (utf8 "m")).result = [2.0] := by
  have htokens : Token.ofText (utf8 "2 rad") = .ok
      [⟨.number 2.0 (some 2), utf8 "2", 0, false⟩, ⟨.symbol, utf8 "rad", 2, true⟩,
        ⟨.finish, [], 5, false⟩] := by decide +kernel
  refine ⟨⟨_, ⟨.symbol, utf8 "rad", 2, true⟩, htokens, by simp, rfl, rfl⟩, ?_⟩
  decide +kernel

end Metrology
