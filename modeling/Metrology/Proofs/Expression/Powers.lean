import Metrology.Dimension.Text
import Metrology.Proofs.Expression.Grammar
import Metrology.Proofs.Expression.Lexing

/-!
# Written products of powers

A product of powers is written as symbols with exponents, separated by blanks. Its tokens are known
up to their places (`WritesPower` and `WritesTail`), and they are an expression exactly when no
exponent is beyond the limit of an expression.
-/

set_option autoImplicit false
set_option relaxedAutoImplicit false

namespace Metrology.Grammar

open Lexer (ReadsAs)

/-! ### Their tokens -/

/-- The tokens of a symbol with an exponent; an exponent of one is not written. -/
inductive WritesPower (symbol : Text) (exponent : Int) (spaced : Bool) : List Token → Prop
  | plain {token : Token} (hkind : token.kind = .symbol) (htext : token.text = symbol)
      (hspaced : token.spaced = spaced) (hone : exponent = 1) :
      WritesPower symbol exponent spaced [token]
  | raised {token caret number : Token} {value : Float} (hkind : token.kind = .symbol)
      (htext : token.text = symbol) (hspaced : token.spaced = spaced)
      (hcaret : caret.kind = .caret) (hnumber : number.kind = .number value (some exponent)) :
      WritesPower symbol exponent spaced [token, caret, number]

/-- The tokens of powers with blanks before each. -/
inductive WritesTail : List (Text × Int) → List Token → Prop
  | nil : WritesTail [] []
  | cons {symbol : Text} {exponent : Int} {powers : List (Text × Int)} {written body : List Token}
      (hpower : WritesPower symbol exponent true written) (htail : WritesTail powers body) :
      WritesTail ((symbol, exponent) :: powers) (written ++ body)

/-- A symbol with its exponent in writing. -/
def powerText (power : Text × Int) : Text :=
  power.1 ++ Dimension.exponentSuffix power.2

/-- Powers in writing with a blank before each. -/
def tailText (powers : List (Text × Int)) : Text :=
  powers.flatMap fun power ↦ 32 :: powerText power

/-- A power is read as its tokens, in front of the end of a text or a blank. -/
theorem readsAs_powerText_append {symbol after : Text} {exponent : Int} {spaced : Bool}
    {property : List Token → Prop} (hsymbol : Token.IsSymbol symbol)
    (hexponent : exponent.natAbs < Nat.pow 2 53) (hblank : ∀ byte ∈ after.head?, byte = 32)
    (hafter : ReadsAs after false property) :
    ReadsAs (powerText (symbol, exponent) ++ after) spaced fun tokens ↦
      ∃ written others, tokens = written ++ others ∧
        WritesPower symbol exponent spaced written ∧ property others := by
  by_cases hone : exponent = 1
  · have hplain : powerText (symbol, exponent) ++ after = symbol ++ after := by
      rw [powerText, Dimension.exponentSuffix, if_pos hone, List.append_nil]
    rw [hplain]
    refine (ReadsAs.symbol_append hsymbol (fun byte hbyte ↦ .inl (hblank byte hbyte)) hafter).imp ?_
    rintro _ ⟨token, others, rfl, hkind, htext, hspaced, hproperty⟩
    exact ⟨[token], others, rfl, .plain hkind htext hspaced hone, hproperty⟩
  · have hraised : powerText (symbol, exponent) ++ after =
        symbol ++ 94 :: (Decimal.ofInt exponent ++ after) := by
      rw [powerText, Dimension.exponentSuffix, if_neg hone, List.append_assoc, List.append_assoc]
      rfl
    have hcaretAfter : ∀ byte ∈ (94 :: (Decimal.ofInt exponent ++ after) : Text).head?,
        byte = 32 ∨ byte = 94 :=
      fun byte hbyte ↦ .inr (Option.some.inj hbyte).symm
    rw [hraised]
    refine (ReadsAs.symbol_append hsymbol hcaretAfter
      (ReadsAs.integer_append hexponent hblank hafter).caret_cons).imp ?_
    rintro _ ⟨token, _, rfl, hkind, htext, hspaced, caret, _, rfl, hcaret, number, value, others,
      rfl, hnumber, hproperty⟩
    exact ⟨[token, caret, number], others, rfl, .raised hkind htext hspaced hcaret hnumber,
      hproperty⟩

theorem blank_of_mem_head?_tailText (powers : List (Text × Int)) :
    ∀ byte ∈ (tailText powers).head?, byte = 32 := by
  cases powers with
  | nil => simp [tailText]
  | cons => simp [tailText]

/-- Powers with blanks before them are read as their tokens and the end of input. -/
theorem readsAs_tailText {powers : List (Text × Int)}
    (hsymbols : ∀ power ∈ powers, Token.IsSymbol power.1)
    (hexponents : ∀ power ∈ powers, power.2.natAbs < Nat.pow 2 53) :
    ReadsAs (tailText powers) false fun tokens ↦
      ∃ body final, tokens = body ++ [final] ∧ final.kind = .finish ∧ WritesTail powers body := by
  induction powers with
  | nil =>
    refine ReadsAs.nil.imp ?_
    rintro _ ⟨final, rfl, hfinal⟩
    exact ⟨[], final, rfl, hfinal, .nil⟩
  | cons power rest ih =>
    have hrest := ih (fun other hother ↦ hsymbols other (List.mem_cons_of_mem power hother))
      fun other hother ↦ hexponents other (List.mem_cons_of_mem power hother)
    have hpower := @readsAs_powerText_append power.1 _ power.2 true _ (hsymbols power (by simp))
      (hexponents power (by simp)) (blank_of_mem_head?_tailText rest) hrest
    rw [tailText, List.flatMap_cons, ← tailText, List.cons_append]
    refine hpower.blank_cons.imp ?_
    rintro _ ⟨written, _, rfl, hwritten, body, final, rfl, hfinal, hbody⟩
    exact ⟨written ++ body, final, by rw [List.append_assoc], hfinal, .cons hwritten hbody⟩

/-! ### They are an expression unless an exponent is too large -/

theorem WritesPower.exists_term {symbol : Text} {exponent : Int} {spaced : Bool}
    {written : List Token} (hwritten : WritesPower symbol exponent spaced written)
    (hrange : exponent.natAbs ≤ 2147483647) :
    ∃ token power position, written = token :: power ∧ token.spaced = spaced ∧
      Term false written ⟨false, ⟨symbol, position⟩, exponent⟩ := by
  cases hwritten with
  | @plain token hkind htext hspaced hone =>
    subst hone htext
    exact ⟨token, [], token.position, rfl, hspaced, .mk hkind .implicit⟩
  | @raised token caret number value hkind htext hspaced hcaret hnumber =>
    subst htext
    exact ⟨token, [caret, number], token.position, rfl, hspaced,
      .mk hkind (.caret hcaret hnumber hrange)⟩

theorem WritesTail.exists_tail {powers : List (Text × Int)} {body : List Token}
    (htail : WritesTail powers body) (hrange : ∀ power ∈ powers, power.2.natAbs ≤ 2147483647) :
    ∃ factors, Tail body factors ∧ (∀ factor ∈ factors, factor.inverted = false) ∧
      factors.map (fun factor ↦ (factor.occurrence.symbol, factor.exponent)) = powers := by
  induction htail with
  | nil => exact ⟨[], .nil, by simp, rfl⟩
  | cons hpower _ ih =>
    obtain ⟨factors, htail, hdirect, rfl⟩ :=
      ih fun power hpower ↦ hrange power (List.mem_cons_of_mem _ hpower)
    obtain ⟨token, power, position, rfl, hspaced, hterm⟩ :=
      hpower.exists_term (hrange _ List.mem_cons_self)
    exact ⟨_, .blank hspaced hterm htail, by simpa using hdirect, rfl⟩

/-- All numbers are integers within the limit of exponents. -/
def NumbersInRange (tokens : List Token) : Prop :=
  ∀ token ∈ tokens, ∀ value integer, token.kind = .number value integer →
    ∃ exponent, integer = some exponent ∧ exponent.natAbs ≤ 2147483647

theorem NumbersInRange.append {first second : List Token} (hfirst : NumbersInRange first)
    (hsecond : NumbersInRange second) : NumbersInRange (first ++ second) := by
  intro token htoken
  rcases List.mem_append.mp htoken with hmem | hmem
  · exact hfirst token hmem
  · exact hsecond token hmem

theorem numbersInRange_singleton {token : Token}
    (hkind : ∀ value integer, token.kind ≠ .number value integer) : NumbersInRange [token] := by
  intro other hother value integer hnumber
  rw [List.mem_singleton.mp hother] at hnumber
  exact absurd hnumber (hkind value integer)

theorem Term.numbersInRange {inverted : Bool} {term : List Token} {factor : Factor}
    (hterm : Term inverted term factor) : NumbersInRange term := by
  cases hterm with
  | @mk symbol power exponent hsymbol hpower =>
    have hfirst : NumbersInRange [symbol] := numbersInRange_singleton (by simp [hsymbol])
    refine hfirst.append ?_
    cases hpower with
    | implicit => intro token htoken; cases htoken
    | @caret caret number value _ hcaret hnumber hrange =>
      have hcaretToken : NumbersInRange [caret] := numbersInRange_singleton (by simp [hcaret])
      refine hcaretToken.append fun token htoken other integer hkind ↦ ?_
      rw [List.mem_singleton.mp htoken, hnumber] at hkind
      cases hkind
      exact ⟨exponent, rfl, hrange⟩
    | superscript hraised _ => exact numbersInRange_singleton (by simp [hraised])

/-- In a tail only exponents are numbers. -/
theorem Tail.numbersInRange {body : List Token} {factors : List Factor}
    (htail : Tail body factors) : NumbersInRange body := by
  induction htail with
  | nil => intro token htoken; cases htoken
  | @operator operator inverted _ _ _ _ hoperator hterm _ ih =>
    have hfirst : NumbersInRange [operator] :=
      numbersInRange_singleton (by cases inverted <;> simp [hoperator, operatorKind])
    exact hfirst.append (hterm.numbersInRange.append ih)
  | blank _ hterm _ ih => exact hterm.numbersInRange.append ih

/-- The exponents of written powers are within the limit, where their numbers are. -/
theorem WritesPower.natAbs_le {symbol : Text} {exponent : Int} {spaced : Bool}
    {written : List Token} (hwritten : WritesPower symbol exponent spaced written)
    (hrange : NumbersInRange written) : exponent.natAbs ≤ 2147483647 := by
  cases hwritten with
  | plain _ _ _ hone =>
    subst hone
    decide
  | raised _ _ _ _ hnumber =>
    obtain ⟨other, heq, hlimit⟩ := hrange _ (by simp) _ _ hnumber
    cases heq
    exact hlimit

theorem WritesTail.natAbs_le {powers : List (Text × Int)} {body : List Token}
    (htail : WritesTail powers body) (hrange : NumbersInRange body) :
    ∀ power ∈ powers, power.2.natAbs ≤ 2147483647 := by
  induction htail with
  | nil => simp
  | cons hpower _ ih =>
    intro power hmem
    rcases List.mem_cons.mp hmem with rfl | hrest
    · exact hpower.natAbs_le fun token htoken ↦ hrange token (List.mem_append_left _ htoken)
    · exact ih (fun token htoken ↦ hrange token (List.mem_append_right _ htoken)) power hrest

theorem WritesPower.exists_symbol {symbol : Text} {exponent : Int} {spaced : Bool}
    {written : List Token} (hwritten : WritesPower symbol exponent spaced written) :
    ∃ token rest, written = token :: rest ∧ token.kind = .symbol := by
  cases hwritten with
  | plain hkind _ _ _ => exact ⟨_, [], rfl, hkind⟩
  | raised hkind _ _ _ _ => exact ⟨_, _, rfl, hkind⟩

/-- An expression that starts with a symbol has no number in front. -/
theorem Expression.numbersInRange {token : Token} {rest : List Token} {number : Option Float}
    {factors : List Factor} (hexpression : Expression (token :: rest) number factors)
    (hsymbol : token.kind = .symbol) : NumbersInRange (token :: rest) := by
  generalize hbody : token :: rest = body at hexpression
  cases hexpression with
  | number hnumber =>
    cases hbody
    rw [hsymbol] at hnumber
    cases hnumber
  | terms hterm htail => exact hterm.numbersInRange.append htail.numbersInRange
  | numberTerms hnumber _ _ =>
    cases hbody
    rw [hsymbol] at hnumber
    cases hnumber
  | numberOperator hnumber _ _ _ =>
    cases hbody
    rw [hsymbol] at hnumber
    cases hnumber

/-- The tokens of a written product of powers. -/
theorem exists_ofText_powers {first : Text × Int} {rest : List (Text × Int)}
    (hsymbols : ∀ power ∈ first :: rest, Token.IsSymbol power.1)
    (hexponents : ∀ power ∈ first :: rest, power.2.natAbs < Nat.pow 2 53) :
    ∃ written body final, Token.ofText (powerText first ++ tailText rest) =
        .ok (written ++ body ++ [final]) ∧ final.kind = .finish ∧
      WritesPower first.1 first.2 false written ∧ WritesTail rest body := by
  have hrest := readsAs_tailText
    (fun power hpower ↦ hsymbols power (List.mem_cons_of_mem first hpower))
    fun power hpower ↦ hexponents power (List.mem_cons_of_mem first hpower)
  obtain ⟨tokens, htokens, written, _, rfl, hwritten, body, final, rfl, hfinal, hbody⟩ :=
    (@readsAs_powerText_append first.1 _ first.2 false _ (hsymbols first (by simp))
      (hexponents first (by simp)) (blank_of_mem_head?_tailText rest) hrest).exists_ofText
  refine ⟨written, body, final, ?_, hfinal, hwritten, hbody⟩
  rw [List.append_assoc]
  exact htokens

/-- They are an expression when no exponent is beyond the limit. -/
theorem exists_expression_of_powers {first : Text × Int} {rest : List (Text × Int)}
    {written body : List Token} (hwritten : WritesPower first.1 first.2 false written)
    (hbody : WritesTail rest body)
    (hrange : ∀ power ∈ first :: rest, power.2.natAbs ≤ 2147483647) :
    ∃ factors, Expression (written ++ body) none factors ∧
      (∀ factor ∈ factors, factor.inverted = false) ∧
      factors.map (fun factor ↦ (factor.occurrence.symbol, factor.exponent)) = first :: rest := by
  obtain ⟨_, _, position, _, _, hterm⟩ := hwritten.exists_term (hrange first (by simp))
  obtain ⟨factors, htail, hdirect, rfl⟩ :=
    hbody.exists_tail fun power hpower ↦ hrange power (List.mem_cons_of_mem first hpower)
  exact ⟨_, .terms hterm htail, by simpa using hdirect, rfl⟩

/-- And only then. -/
theorem natAbs_le_of_expression {first : Text × Int} {rest : List (Text × Int)}
    {written body : List Token} {number : Option Float} {factors : List Factor}
    (hwritten : WritesPower first.1 first.2 false written) (hbody : WritesTail rest body)
    (hexpression : Expression (written ++ body) number factors) :
    ∀ power ∈ first :: rest, power.2.natAbs ≤ 2147483647 := by
  obtain ⟨token, behind, rfl, hsymbol⟩ := hwritten.exists_symbol
  have hrange : NumbersInRange (token :: behind ++ body) := hexpression.numbersInRange hsymbol
  intro power hpower
  rcases List.mem_cons.mp hpower with rfl | hmem
  · exact hwritten.natAbs_le fun token htoken ↦ hrange token (List.mem_append_left _ htoken)
  · exact hbody.natAbs_le (fun token htoken ↦ hrange token (List.mem_append_right _ htoken)) _ hmem

end Metrology.Grammar
