import Metrology.Proofs.Expression.Joining
import Metrology.Proofs.Expression.Numbers
import Metrology.Proofs.Expression.Places

/-!
# A number right before a unit

No blank and no operator has to stand between a number and the unit behind it. The number goes on as
long as it can, and the letter of an exponent part is a character of symbols as well, so that the
first letter of a unit may look like the start of an exponent part. It is one only when a digit
follows, with or without a sign, and then a number would stand right behind a symbol in the unit:
no expression has that (`Grammar.Expression.not_number_of_symbol`). In front of a unit that is an
expression the number ends therefore where it ends on its own (`Lexer.Reads.endsNumeral`).
-/

set_option autoImplicit false
set_option relaxedAutoImplicit false

namespace Metrology

namespace Lexer

/-! ### What a number looks for behind it -/

/-- A sign that may be missing and a digit start as numbers do. -/
theorem exists_startsNumber {codes : List Nat} (hdigits : (scanDigits (Sign.scan codes).2).1 ≠ []) :
    ∃ first rest, codes = first :: rest ∧ startsNumber first = true := by
  cases codes with
  | nil => exact absurd rfl hdigits
  | cons first rest =>
    refine ⟨first, rest, rfl, ?_⟩
    by_cases hplus : first = Sign.plus.code
    · rw [hplus]
      rfl
    by_cases hminus : first = Sign.minus.code
    · rw [hminus]
      rfl
    rw [Sign.scan, if_neg hplus, if_neg hminus] at hdigits
    have hdigit : isDigit first = true := by
      refine Decidable.byContradiction fun hother ↦ hdigits ?_
      rw [scanDigits, List.takeWhile_cons_of_neg hother, List.map_nil]
    rw [startsNumber, hdigit]
    rfl

/-- An exponent part that is found has digits. -/
theorem scanExponent_eq_none {first : Nat} {rest : List Nat}
    (hdigits : (scanDigits (Sign.scan rest).2).1 = []) :
    ExponentPart.scan (first :: rest) = (none, first :: rest) := by
  rw [ExponentPart.scan]
  split
  · cases hscan : scanDigits (Sign.scan rest).2 with
    | mk digits behind =>
      rw [hscan] at hdigits
      obtain rfl : digits = [] := hdigits
      simp only [hscan]
  · rfl

theorem isSymbol_of_startsNumber {code : Nat} (hstarts : startsNumber code = true) :
    isSymbol code = false := by
  have hlt : code < 0x80 := by
    simp [startsNumber, isDigit] at hstarts
    omega
  exact (by decide : ∀ other < 0x80, startsNumber other = true → isSymbol other = false) code hlt
    hstarts

/-- No character of a symbol is a digit or a point, and neither is a blank. -/
theorem endsMantissa_cons {first : Nat} (hfirst : isBlank first = true ∨ isSymbol first = true)
    (rest : List Nat) : Numeral.EndsMantissa (first :: rest) := by
  have hnumber : ¬ startsNumber first = true := by
    intro hstarts
    rcases hfirst with hblank | hsymbol
    · rw [isBlank_of_startsNumber hstarts] at hblank
      cases hblank
    · rw [isSymbol_of_startsNumber hstarts] at hsymbol
      cases hsymbol
  intro code hcode
  cases hcode
  have hother : isDigit first = false ∧ first ≠ 46 ∧ first ≠ 43 ∧ first ≠ 45 := by
    simpa [startsNumber, and_assoc] using hnumber
  exact ⟨hother.1, hother.2.1⟩

namespace Reads

variable {position : Nat} {spaced : Bool} {codes : List Nat}

/-- What is read as a symbol, and not as a number right behind it, does not go on with a number. -/
theorem endsNumeral {symbol : Token} {others : List Token}
    (hreads : Reads position spaced codes (symbol :: others)) (hsymbol : symbol.kind = .symbol)
    (hothers : ∀ next ∈ others.head?, ∀ value integer, next.kind ≠ .number value integer) :
    Numeral.EndsNumeral codes := by
  cases hreads with
  | finish => cases hsymbol
  | @blank _ first _ rest _ hblank _ =>
    refine ⟨endsMantissa_cons (.inl hblank) rest, if_neg ?_⟩
    exact (isOther_of_separates (separates_of_isBlank hblank)).letter
  | @lexeme _ first _ rest read _ _ hread hrest =>
    obtain ⟨hfirst, rfl⟩ := symbol_of_lexeme hread hsymbol
    refine ⟨endsMantissa_cons (.inr hfirst) rest, scanExponent_eq_none ?_⟩
    refine Decidable.byContradiction fun hdigits ↦ ?_
    obtain ⟨code, behind, rfl, hstarts⟩ := exists_startsNumber hdigits
    -- the symbol is the first character alone, and a number is read behind it
    have hother : ¬ isSymbol code = true := by simp [isSymbol_of_startsNumber hstarts]
    rw [List.dropWhile_cons_of_neg hother] at hrest
    cases hrest with
    | blank hblank _ =>
      rw [isBlank_of_startsNumber hstarts] at hblank
      cases hblank
    | lexeme _ hlexeme _ =>
      rw [lexeme_of_startsNumber hstarts] at hlexeme
      obtain ⟨value, integer, hkind⟩ := number_kind hlexeme
      exact hothers _ rfl value integer hkind

/-- The end of a text that no blank comes before is the end of its code points. -/
theorem eq_nil_of_finish {final : Token} (hreads : Reads position spaced codes [final])
    (hspaced : final.spaced = false) : codes = [] := by
  cases hreads with
  | finish => rfl
  | blank _ hrest =>
    have htold := hrest.spaced_head rfl final rfl
    rw [hspaced] at htold
    cases htold
  | lexeme _ _ hrest =>
    obtain ⟨_, _, hcons⟩ := hrest.exists_cons
    cases hcons

/-- A number that a text ends with is read in front of anything that does not go on with it. -/
theorem number_append {number final : Token} {value : Float} {integer : Option Int}
    {rest : List Nat} {others : List Token} (hreads : Reads position spaced codes [number, final])
    (hnumber : number.kind = .number value integer) (hspaced : final.spaced = false)
    (hends : Numeral.EndsNumeral rest) (hrest : Reads number.stop false rest others) :
    Reads position spaced (codes ++ rest) (number :: others) := by
  generalize htokens : [number, final] = tokens at hreads
  induction hreads with
  | finish => cases htokens
  | blank hblank _ ih => exact .blank hblank (ih htokens)
  | @lexeme position first spaced behind read tokens hblank hread hfinal ih =>
    obtain ⟨rfl, rfl⟩ := List.cons.inj htokens
    have hnil := hfinal.eq_nil_of_finish hspaced
    obtain ⟨numeral, left, hscan, hrange, rfl⟩ :=
      exists_numeral_of_number (number_of_lexeme hread hnumber).2
    obtain rfl : left = [] := hnil
    obtain ⟨code, left, happend, hvisible, hnext⟩ :=
      lexeme_of_isWritten (Numeral.isWritten_of_scan hscan) hends none
    rw [← Numeral.codes_scan hscan, List.append_nil, happend]
    rw [if_pos hrange] at hnext
    have hreads := @Reads.lexeme position code spaced left _ others hvisible hnext hrest
    exact hreads

end Reads

end Lexer

namespace Token

open Lexer

/-- A text of one token ends with it when it does not end with blanks. -/
theorem exists_eq_append_text {text : Text} {token final : Token}
    (hread : ofText text = .ok [token, final]) (hspaced : final.spaced = false) :
    ∃ gap, text = gap ++ token.text ∧ token.position = gap.length := by
  cases laysOut_of_ofText hread with
  | @token _ gap _ _ _ _ _ _ hposition _ _ _ hrest =>
    cases hrest with
    | finish _ hblanks _ _ _ =>
      have hnil := Decidable.not_not.mp (mt hblanks.mpr (by simp [hspaced]))
      exact ⟨gap, by rw [hnil, List.append_nil], hposition.trans (Nat.zero_add _)⟩

/-- A text that is one number up to its end is read in front of a unit, which is read at its new
place. -/
theorem ofText_numbered {numeral unit : Text} {number final symbol : Token} {others : List Token}
    {value : Float} {integer : Option Int} (hnumeral : ofText numeral = .ok [number, final])
    (hnumber : number.kind = .number value integer) (hspaced : final.spaced = false)
    (hunit : ofText unit = .ok (symbol :: others)) (hsymbol : symbol.kind = .symbol)
    (hothers : ∀ next ∈ others.head?, ∀ value integer, next.kind ≠ .number value integer) :
    ofText (numeral ++ unit) =
      .ok (number :: (symbol :: others).map (Token.shift numeral.length)) := by
  obtain ⟨codes, hdecode, hreads⟩ := ofText_eq_ok_iff.mp hnumeral
  obtain ⟨behind, hdecodeUnit, hreadsUnit⟩ := ofText_eq_ok_iff.mp hunit
  have hmoved := hreadsUnit.shift number.stop
  obtain ⟨gap, hgap, hposition⟩ := exists_eq_append_text hnumeral hspaced
  have hstop : number.stop = numeral.length := by
    rw [stop, hposition, ← List.length_append, ← hgap]
  rw [Nat.add_zero] at hmoved
  rw [← hstop]
  exact ofText_eq_ok_iff.mpr ⟨codes ++ behind,
    by rw [Utf8.decodeAll_append unit hdecode, hdecodeUnit],
    hreads.number_append hnumber hspaced (hreadsUnit.endsNumeral hsymbol hothers) hmoved⟩

end Token

namespace Grammar

/-- Further terms start with an operator or a symbol. -/
theorem Tail.kind_head {next : Token} {rest : List Token} {factors : List Factor}
    (htail : Tail (next :: rest) factors) :
    next.kind = .symbol ∨ ∃ inverted, next.kind = operatorKind inverted := by
  generalize htokens : next :: rest = tokens at htail
  cases htail with
  | nil => cases htokens
  | operator hoperator _ _ =>
    obtain ⟨rfl, _⟩ := List.cons.inj htokens
    exact .inr ⟨_, hoperator⟩
  | blank _ hterm _ =>
    obtain ⟨rfl, _⟩ := List.cons.inj htokens
    cases hterm with
    | mk hsymbol _ => exact .inl hsymbol

/-- No number stands right behind a symbol of an expression. -/
theorem Expression.not_number_of_symbol {front rest : List Token} {symbol next : Token}
    {number : Option Float} {factors : List Factor}
    (hexpression : Expression (front ++ symbol :: next :: rest) number factors)
    (hsymbol : symbol.kind = .symbol) (value : Float) (integer : Option Int) :
    next.kind ≠ .number value integer := by
  have hplace := hexpression.hasPlace hsymbol rfl
  generalize hbehind : next :: rest = behind at hplace
  cases hplace with
  | mk _ hpower htail =>
    cases hpower with
    | implicit =>
      rw [List.nil_append] at hbehind
      rcases (hbehind ▸ htail).kind_head with hkind | ⟨inverted, hkind⟩
      · simp [hkind]
      · cases inverted <;> simp [hkind, operatorKind]
    | caret hcaret _ _ =>
      obtain ⟨rfl, _⟩ := List.cons.inj hbehind
      simp [hcaret]
    | superscript hraised _ =>
      obtain ⟨rfl, _⟩ := List.cons.inj hbehind
      simp [hraised]

/-- No number stands right behind a symbol that an expression starts with. -/
theorem Expression.not_number_head {symbol last : Token} {rest : List Token}
    {number : Option Float} {factors : List Factor}
    (hexpression : Expression (symbol :: rest) number factors) (hsymbol : symbol.kind = .symbol)
    (hlast : last.kind = .finish) :
    ∀ next ∈ (rest ++ [last]).head?, ∀ value integer, next.kind ≠ .number value integer := by
  intro next hnext value integer
  cases rest with
  | nil =>
    cases hnext
    simp [hlast]
  | cons token rest =>
    cases hnext
    exact @not_number_of_symbol [] rest symbol next _ _ hexpression hsymbol value integer

theorem Expression.number_eq_none {symbol : Token} {rest : List Token} {number : Option Float}
    {factors : List Factor} (hexpression : Expression (symbol :: rest) number factors)
    (hsymbol : symbol.kind = .symbol) : number = none := by
  generalize htokens : symbol :: rest = tokens at hexpression
  cases hexpression with
  | terms => rfl
  | number hnumber =>
    obtain ⟨rfl, _⟩ := List.cons.inj htokens
    cases hsymbol.symm.trans hnumber
  | numberTerms hnumber _ _ =>
    obtain ⟨rfl, _⟩ := List.cons.inj htokens
    cases hsymbol.symm.trans hnumber
  | numberOperator hnumber _ _ _ =>
    obtain ⟨rfl, _⟩ := List.cons.inj htokens
    cases hsymbol.symm.trans hnumber

/-- An expression without number may have one in front of it. -/
theorem Expression.number_cons {number : Token} {value : Float} {integer : Option Int}
    {body : List Token} {factors : List Factor} (hexpression : Expression body none factors)
    (hnumber : number.kind = .number value integer) :
    Expression (number :: body) (some value) factors := by
  cases hexpression with
  | terms hterm htail => exact .numberTerms hnumber hterm htail

end Grammar

end Metrology
