import Metrology.Expression.Outline

/-!
# The grammar of expressions

An expression is a number, an optional number with terms after it, or a number with an operator and
terms after it. A term is a symbol with an optional exponent; all terms but the first follow an
operator or blanks. `Power`, `Term`, `Tail` and `Expression` are these rules as relations between
tokens and what they stand for, without any order of reading. The reader of outlines agrees with
them: it completes on the tokens of an expression (`Expression.ofTokens_append`), and where it
completes it has read one (`exists_expression_of_complete`).
-/

set_option autoImplicit false
set_option relaxedAutoImplicit false

namespace Metrology.Grammar

/-! ### The rules -/

/-- The tokens of an exponent. None stand for one. -/
inductive Power : List Token → Int → Prop
  | implicit : Power [] 1
  | caret {caret number : Token} {value : Float} {exponent : Int} (hcaret : caret.kind = .caret)
      (hnumber : number.kind = .number value (some exponent))
      (hrange : exponent.natAbs ≤ 2147483647) : Power [caret, number] exponent
  | superscript {raised : Token} {exponent : Int} (hraised : raised.kind = .superscript exponent)
      (hattached : raised.spaced = false) : Power [raised] exponent

/-- The tokens of a term: a symbol with an exponent. -/
inductive Term (inverted : Bool) : List Token → Factor → Prop
  | mk {symbol : Token} {power : List Token} {exponent : Int} (hsymbol : symbol.kind = .symbol)
      (hpower : Power power exponent) :
      Term inverted (symbol :: power) ⟨inverted, ⟨symbol.text, symbol.position⟩, exponent⟩

/-- The operator before a factor that is inverted or not. -/
def operatorKind (inverted : Bool) : TokenKind :=
  if inverted then .divide else .times

/-- The tokens of further terms, each after an operator or blanks. -/
inductive Tail : List Token → List Factor → Prop
  | nil : Tail [] []
  | operator {operator : Token} {inverted : Bool} {term rest : List Token} {factor : Factor}
      {factors : List Factor} (hoperator : operator.kind = operatorKind inverted)
      (hterm : Term inverted term factor) (htail : Tail rest factors) :
      Tail (operator :: (term ++ rest)) (factor :: factors)
  | blank {symbol : Token} {power rest : List Token} {factor : Factor} {factors : List Factor}
      (hspaced : symbol.spaced = true) (hterm : Term false (symbol :: power) factor)
      (htail : Tail rest factors) : Tail (symbol :: power ++ rest) (factor :: factors)

/-- The tokens of an expression, with its number and factors. -/
inductive Expression : List Token → Option Float → List Factor → Prop
  | number {number : Token} {value : Float} {integer : Option Int}
      (hnumber : number.kind = .number value integer) : Expression [number] (some value) []
  | terms {term rest : List Token} {factor : Factor} {factors : List Factor}
      (hterm : Term false term factor) (htail : Tail rest factors) :
      Expression (term ++ rest) none (factor :: factors)
  | numberTerms {number : Token} {value : Float} {integer : Option Int} {term rest : List Token}
      {factor : Factor} {factors : List Factor} (hnumber : number.kind = .number value integer)
      (hterm : Term false term factor) (htail : Tail rest factors) :
      Expression (number :: (term ++ rest)) (some value) (factor :: factors)
  | numberOperator {number operator : Token} {value : Float} {integer : Option Int}
      {inverted : Bool} {term rest : List Token} {factor : Factor} {factors : List Factor}
      (hnumber : number.kind = .number value integer)
      (hoperator : operator.kind = operatorKind inverted) (hterm : Term inverted term factor)
      (htail : Tail rest factors) :
      Expression (number :: operator :: (term ++ rest)) (some value) (factor :: factors)

/-- The first term of an expression without number does not stand behind `/`. -/
theorem Expression.inverted_head {body : List Token} {factor : Factor} {factors : List Factor}
    (hexpression : Expression body none (factor :: factors)) : factor.inverted = false := by
  cases hexpression with
  | terms hterm _ =>
    cases hterm with
    | mk => rfl

/-! ### The symbols of an expression are those of its factors -/

/-- The occurrence of a symbol, when the token is one. -/
def occurrence? (token : Token) : Option Occurrence :=
  if token.kind = .symbol then some ⟨token.text, token.position⟩ else none

theorem occurrence?_operator {operator : Token} {inverted : Bool}
    (hoperator : operator.kind = operatorKind inverted) : occurrence? operator = none := by
  cases inverted <;> simp [occurrence?, hoperator, operatorKind]

theorem occurrence?_number {number : Token} {value : Float} {integer : Option Int}
    (hnumber : number.kind = .number value integer) : occurrence? number = none := by
  simp [occurrence?, hnumber]

theorem Term.filterMap_occurrence? {inverted : Bool} {term : List Token} {factor : Factor}
    (hterm : Term inverted term factor) : term.filterMap occurrence? = [factor.occurrence] := by
  cases hterm with
  | mk hsymbol hpower =>
    cases hpower with
    | implicit => simp [occurrence?, hsymbol]
    | caret hcaret hnumber _ => simp [occurrence?, hsymbol, hcaret, hnumber]
    | superscript hraised _ => simp [occurrence?, hsymbol, hraised]

theorem Tail.filterMap_occurrence? {body : List Token} {factors : List Factor}
    (htail : Tail body factors) :
    body.filterMap occurrence? = factors.map Factor.occurrence := by
  induction htail with
  | nil => rfl
  | operator hoperator hterm htail ih =>
    rw [List.filterMap_cons_none (occurrence?_operator hoperator), List.filterMap_append,
      hterm.filterMap_occurrence?, ih, List.map_cons, List.singleton_append]
  | blank hspaced hterm htail ih =>
    rw [List.filterMap_append, hterm.filterMap_occurrence?, ih, List.map_cons,
      List.singleton_append]

/-- The symbols of an expression, in their order, are the symbols of its factors. -/
theorem Expression.filterMap_occurrence? {body : List Token} {number : Option Float}
    {factors : List Factor} (hexpression : Expression body number factors) :
    body.filterMap occurrence? = factors.map Factor.occurrence := by
  cases hexpression with
  | number hnumber => rw [List.filterMap_cons_none (occurrence?_number hnumber)]; rfl
  | terms hterm htail =>
    rw [List.filterMap_append, hterm.filterMap_occurrence?, htail.filterMap_occurrence?,
      List.map_cons, List.singleton_append]
  | numberTerms hnumber hterm htail =>
    rw [List.filterMap_cons_none (occurrence?_number hnumber), List.filterMap_append,
      hterm.filterMap_occurrence?, htail.filterMap_occurrence?, List.map_cons,
      List.singleton_append]
  | numberOperator hnumber hoperator hterm htail =>
    rw [List.filterMap_cons_none (occurrence?_number hnumber),
      List.filterMap_cons_none (occurrence?_operator hoperator), List.filterMap_append,
      hterm.filterMap_occurrence?, htail.filterMap_occurrence?, List.map_cons,
      List.singleton_append]

/-! ### The reader completes on the tokens of an expression -/

/-- No exponent starts here. -/
def EndsTerm (tokens : List Token) : Prop :=
  ∃ token rest, tokens = token :: rest ∧ token.kind ≠ .caret ∧
    ∀ exponent, token.kind ≠ .superscript exponent

theorem Power.exponent_append {power rest : List Token} {exponent : Int}
    (hpower : Power power exponent) (hrest : EndsTerm rest) :
    Outline.exponent (power ++ rest) = .ok (exponent, rest) := by
  cases hpower with
  | implicit =>
    obtain ⟨token, after, rfl, hcaret, hsuperscript⟩ := hrest
    rw [List.nil_append, Outline.exponent]
    split
    · next hkind => exact absurd hkind (hsuperscript _)
    · next hkind => exact absurd hkind hcaret
    · rfl
  | caret hcaret hnumber hrange =>
    have hlimit : ¬ Lexer.exponentLimit < exponent.natAbs := Nat.not_lt.mpr hrange
    simp only [List.cons_append, List.nil_append, Outline.exponent, hcaret,
      Outline.caretExponent, hnumber, if_neg hlimit]
  | superscript hraised hattached =>
    simp [Outline.exponent, hraised, hattached]

theorem Term.factor_append {inverted : Bool} {term rest : List Token} {factor : Factor}
    (hterm : Term inverted term factor) (hrest : EndsTerm rest) :
    Outline.factor inverted (term ++ rest) = .ok (factor, rest) := by
  cases hterm with
  | mk hsymbol hpower =>
    simp only [List.cons_append, Outline.factor, if_pos hsymbol, hpower.exponent_append hrest]

theorem Tail.endsTerm {body : List Token} {factors : List Factor} (htail : Tail body factors)
    {final : Token} (hfinal : final.kind = .finish) : EndsTerm (body ++ [final]) := by
  cases htail with
  | nil => exact ⟨final, [], rfl, by simp [hfinal], by simp [hfinal]⟩
  | @operator operator inverted _ _ _ _ hoperator hterm htail =>
    refine ⟨operator, _, rfl, ?_, ?_⟩ <;> cases inverted <;> simp [hoperator, operatorKind]
  | @blank symbol _ _ _ _ hspaced hterm htail =>
    cases hterm with
    | mk hsymbol hpower => exact ⟨symbol, _, rfl, by simp [hsymbol], by simp [hsymbol]⟩

/-- The reader of factors takes a next factor and goes on behind it. -/
theorem tail_cons_of_nextFactor {token : Token} {rest after : List Token} {factor : Factor}
    (hkind : token.kind ≠ .finish) (hfactor : Outline.nextFactor token rest = .ok (factor, after)) :
    Outline.tail (token :: rest) = (factor :: (Outline.tail after).1, (Outline.tail after).2) := by
  rw [Outline.tail, if_neg hkind]
  split
  · next hread =>
    rw [hfactor] at hread
    cases hread
    rfl
  · next hread =>
    rw [hfactor] at hread
    cases hread

theorem tail_cons_of_refusal {token : Token} {rest : List Token} {unfinished : Option Occurrence}
    {refusal : GrammarRefusal} (hkind : token.kind ≠ .finish)
    (hfactor : Outline.nextFactor token rest = .error (unfinished, refusal)) :
    Outline.tail (token :: rest) = ([], .broken unfinished refusal) := by
  rw [Outline.tail, if_neg hkind]
  split
  · next hread =>
    rw [hfactor] at hread
    cases hread
  · next hread =>
    rw [hfactor] at hread
    cases hread
    rfl

theorem Tail.tail_append {body : List Token} {factors : List Factor} (htail : Tail body factors)
    {final : Token} (hfinal : final.kind = .finish) :
    Outline.tail (body ++ [final]) = (factors, .complete) := by
  induction htail with
  | nil => rw [List.nil_append, Outline.tail, if_pos hfinal]
  | @operator operator inverted term rest factor factors hoperator hterm htail ih =>
    have hfactor : Outline.nextFactor operator (term ++ (rest ++ [final])) =
        .ok (factor, rest ++ [final]) := by
      rw [← hterm.factor_append (htail.endsTerm hfinal), Outline.nextFactor]
      cases inverted <;> simp [hoperator, operatorKind]
    have hkind : operator.kind ≠ .finish := by
      cases inverted <;> simp [hoperator, operatorKind]
    rw [List.cons_append, List.append_assoc, tail_cons_of_nextFactor hkind hfactor, ih]
  | @blank symbol power rest factor factors hspaced hterm htail ih =>
    have hsymbol : symbol.kind = .symbol := by
      cases hterm with
      | mk hsymbol _ => exact hsymbol
    have hfactor : Outline.nextFactor symbol (power ++ (rest ++ [final])) =
        .ok (factor, rest ++ [final]) := by
      rw [← hterm.factor_append (htail.endsTerm hfinal), Outline.nextFactor]
      simp [hsymbol, hspaced]
    have hkind : symbol.kind ≠ .finish := by simp [hsymbol]
    rw [List.append_assoc, List.cons_append, tail_cons_of_nextFactor hkind hfactor, ih]

theorem Term.leading_append {term rest : List Token} {factor : Factor} {factors : List Factor}
    (hterm : Term false term factor) (htail : Tail rest factors) {final : Token}
    (hfinal : final.kind = .finish) :
    Outline.leading (term ++ rest ++ [final]) = (factor :: factors, .complete) := by
  simp only [List.append_assoc, Outline.leading, hterm.factor_append (htail.endsTerm hfinal),
    htail.tail_append hfinal]

/-- The outline of the tokens of an expression, with the end of input behind them. -/
theorem Expression.ofTokens_append {body : List Token} {number : Option Float}
    {factors : List Factor} (hexpression : Expression body number factors) {final : Token}
    (hfinal : final.kind = .finish) :
    Outline.ofTokens (body ++ [final]) = ⟨number, factors, .complete⟩ := by
  cases hexpression with
  | number hnumber =>
    have htail : Outline.tail [final] = ([], .complete) := Tail.nil.tail_append hfinal
    simp only [List.cons_append, List.nil_append, Outline.ofTokens, hnumber, Outline.afterNumber,
      hfinal, true_or, if_true, htail]
  | @terms term rest factor factors hterm htail =>
    have hleading := hterm.leading_append htail hfinal
    cases hterm with
    | mk hsymbol hpower =>
      simp only [List.cons_append] at hleading ⊢
      simp only [Outline.ofTokens, hsymbol, hleading]
  | @numberTerms _ _ _ term rest factor factors hnumber hterm htail =>
    have hleading := hterm.leading_append htail hfinal
    cases hterm with
    | @mk symbol power exponent hsymbol hpower =>
      have hstarts : ¬ (symbol.kind = .finish ∨ symbol.kind = .times ∨ symbol.kind = .divide) := by
        simp [hsymbol]
      simp only [List.cons_append] at hleading ⊢
      simp only [Outline.ofTokens, hnumber, Outline.afterNumber, if_neg hstarts, hleading]
  | @numberOperator _ operator _ _ inverted _ _ _ _ hnumber hoperator hterm htail =>
    have hread := (Tail.operator hoperator hterm htail).tail_append hfinal
    have hstarts : operator.kind = .finish ∨ operator.kind = .times ∨ operator.kind = .divide := by
      cases inverted <;> simp [hoperator, operatorKind]
    rw [List.cons_append] at hread
    simp only [List.cons_append, Outline.ofTokens, hnumber, Outline.afterNumber, if_pos hstarts,
      hread]

/-- The grammar is unambiguous. -/
theorem Expression.unique {body : List Token} {number other : Option Float}
    {factors others : List Factor} (hexpression : Expression body number factors)
    (hother : Expression body other others) : number = other ∧ factors = others := by
  have hfinal : (⟨.finish, [], 0, false⟩ : Token).kind = .finish := rfl
  have hread := hexpression.ofTokens_append hfinal
  rw [hother.ofTokens_append hfinal] at hread
  cases hread
  exact ⟨rfl, rfl⟩

/-! ### Where the reader completes it has read an expression -/

theorem exists_power_of_exponent {tokens rest : List Token} {exponent : Int}
    (hread : Outline.exponent tokens = .ok (exponent, rest)) :
    ∃ power, Power power exponent ∧ tokens = power ++ rest := by
  unfold Outline.exponent at hread
  split at hread
  · cases hread
  · next token after =>
    split at hread
    · next hraised =>
      split at hread
      · cases hread
      · next hattached =>
        cases hread
        exact ⟨[token], .superscript hraised (by simpa using hattached), rfl⟩
    · next hcaret =>
      unfold Outline.caretExponent at hread
      split at hread
      · cases hread
      · next number after =>
        split at hread
        · next hnumber =>
          split at hread
          · cases hread
          · next hrange =>
            cases hread
            exact ⟨[token, number], .caret hcaret hnumber (Nat.not_lt.mp hrange), rfl⟩
        · cases hread
    · cases hread
      exact ⟨[], .implicit, rfl⟩

theorem exists_term_of_factor {inverted : Bool} {tokens rest : List Token} {factor : Factor}
    (hread : Outline.factor inverted tokens = .ok (factor, rest)) :
    ∃ term, Term inverted term factor ∧ tokens = term ++ rest := by
  unfold Outline.factor at hread
  split at hread
  · cases hread
  · next token after =>
    split at hread
    · next hsymbol =>
      dsimp only at hread
      split at hread
      · next hexponent =>
        cases hread
        obtain ⟨power, hpower, rfl⟩ := exists_power_of_exponent hexponent
        exact ⟨token :: power, .mk hsymbol hpower, rfl⟩
      · cases hread
    · cases hread

theorem exists_tail_of_nextFactor {token : Token} {after rest : List Token} {factor : Factor}
    (hread : Outline.nextFactor token after = .ok (factor, rest)) :
    ∃ taken, token :: after = taken ++ rest ∧ ∀ {body : List Token} {factors : List Factor},
      Tail body factors → Tail (taken ++ body) (factor :: factors) := by
  unfold Outline.nextFactor at hread
  split at hread
  · next hkind =>
    obtain ⟨term, hterm, rfl⟩ := exists_term_of_factor hread
    exact ⟨token :: term, rfl, fun htail ↦ @Tail.operator token false _ _ _ _ hkind hterm htail⟩
  · next hkind =>
    obtain ⟨term, hterm, rfl⟩ := exists_term_of_factor hread
    exact ⟨token :: term, rfl, fun htail ↦ @Tail.operator token true _ _ _ _ hkind hterm htail⟩
  · next hkind =>
    split at hread
    · next hspaced =>
      obtain ⟨term, hterm, htokens⟩ := exists_term_of_factor hread
      refine ⟨term, htokens, fun htail ↦ ?_⟩
      cases hterm with
      | mk hsymbol hpower =>
        rw [List.cons_append, List.cons.injEq] at htokens
        obtain ⟨rfl, _⟩ := htokens
        exact .blank hspaced (.mk hsymbol hpower) htail
    · cases hread
  · cases hread

theorem exists_tail_of_complete {tokens : List Token} {factors : List Factor}
    (hread : Outline.tail tokens = (factors, .complete)) :
    ∃ body final after, tokens = body ++ final :: after ∧ final.kind = .finish ∧
      Tail body factors := by
  induction tokens using Outline.tail.induct generalizing factors with
  | case1 => simp [Outline.tail] at hread
  | case2 token rest hfinal =>
    rw [Outline.tail, if_pos hfinal] at hread
    cases hread
    exact ⟨[], token, rest, rfl, hfinal, .nil⟩
  | case3 token rest hkind first after hfactor _ _ _ ih =>
    rw [tail_cons_of_nextFactor hkind hfactor, Prod.mk.injEq] at hread
    obtain ⟨rfl, hending⟩ := hread
    obtain ⟨body, final, behind, hafter, hfinal, htail⟩ := ih (Prod.ext rfl hending)
    obtain ⟨taken, htokens, hstep⟩ := exists_tail_of_nextFactor hfactor
    exact ⟨taken ++ body, final, behind, by rw [htokens, hafter, List.append_assoc], hfinal,
      hstep htail⟩
  | case4 token rest hkind unfinished refusal hfactor =>
    rw [tail_cons_of_refusal hkind hfactor] at hread
    cases hread

/-- Where reading a first factor completes, it has read a term and a tail. -/
theorem exists_terms_of_complete {tokens : List Token} {factors : List Factor}
    (hread : Outline.leading tokens = (factors, .complete)) :
    ∃ term rest final after factor others, tokens = term ++ rest ++ final :: after ∧
      final.kind = .finish ∧ factors = factor :: others ∧ Term false term factor ∧
      Tail rest others := by
  unfold Outline.leading at hread
  split at hread
  · next first after hfactor =>
    dsimp only at hread
    rw [Prod.mk.injEq] at hread
    obtain ⟨rfl, hending⟩ := hread
    obtain ⟨term, hterm, rfl⟩ := exists_term_of_factor hfactor
    obtain ⟨rest, final, behind, rfl, hfinal, htail⟩ :=
      exists_tail_of_complete (Prod.ext rfl hending)
    exact ⟨term, rest, final, behind, first, _, by rw [List.append_assoc], hfinal, rfl, hterm,
      htail⟩
  · cases hread

/-- A number with further terms behind it is an expression. -/
theorem Tail.expression_cons {number : Token} {value : Float} {integer : Option Int}
    {body : List Token} {factors : List Factor} (htail : Tail body factors)
    (hnumber : number.kind = .number value integer) :
    Expression (number :: body) (some value) factors := by
  cases htail with
  | nil => exact .number hnumber
  | operator hoperator hterm htail => exact .numberOperator hnumber hoperator hterm htail
  | blank _ hterm htail => exact .numberTerms hnumber hterm htail

theorem exists_expression_of_afterNumber {number : Token} {value : Float} {integer : Option Int}
    {tokens : List Token} {factors : List Factor} (hnumber : number.kind = .number value integer)
    (hread : Outline.afterNumber tokens = (factors, .complete)) :
    ∃ body final after, tokens = body ++ final :: after ∧ final.kind = .finish ∧
      Expression (number :: body) (some value) factors := by
  unfold Outline.afterNumber at hread
  split at hread
  · cases hread
  · next token rest =>
    split at hread
    · obtain ⟨body, final, after, htokens, hfinal, htail⟩ := exists_tail_of_complete hread
      exact ⟨body, final, after, htokens, hfinal, htail.expression_cons hnumber⟩
    · obtain ⟨term, rest, final, after, factor, others, htokens, hfinal, rfl, hterm, htail⟩ :=
        exists_terms_of_complete hread
      exact ⟨term ++ rest, final, after, htokens, hfinal, .numberTerms hnumber hterm htail⟩

/-- Behind an expression that was read to its end stands an end of input. -/
theorem exists_expression_of_complete {tokens : List Token} {number : Option Float}
    {factors : List Factor} (hread : Outline.ofTokens tokens = ⟨number, factors, .complete⟩) :
    ∃ body final after, tokens = body ++ final :: after ∧ final.kind = .finish ∧
      Expression body number factors := by
  unfold Outline.ofTokens at hread
  split at hread
  · cases hread
  · next token rest =>
    split at hread
    · cases hread
    · next value integer hnumber =>
      dsimp only at hread
      rw [Outline.mk.injEq] at hread
      obtain ⟨rfl, hfactors, hending⟩ := hread
      obtain ⟨body, final, after, rfl, hfinal, hexpression⟩ :=
        exists_expression_of_afterNumber hnumber (Prod.ext hfactors hending)
      exact ⟨token :: body, final, after, rfl, hfinal, hexpression⟩
    · dsimp only at hread
      rw [Outline.mk.injEq] at hread
      obtain ⟨rfl, hfactors, hending⟩ := hread
      obtain ⟨term, after, final, behind, factor, others, htokens, hfinal, rfl, hterm, htail⟩ :=
        exists_terms_of_complete (Prod.ext hfactors hending)
      exact ⟨term ++ after, final, behind, htokens, hfinal, .terms hterm htail⟩

/-- The reader completes exactly on expressions, where the end of input is the last token only. -/
theorem ofTokens_eq_complete_iff {body : List Token} {final : Token} {number : Option Float}
    {factors : List Factor} (hfinal : final.kind = .finish)
    (hbody : ∀ token ∈ body, token.kind ≠ .finish) :
    Outline.ofTokens (body ++ [final]) = ⟨number, factors, .complete⟩ ↔
      Expression body number factors := by
  constructor
  · intro hread
    obtain ⟨taken, last, after, htokens, hlast, hexpression⟩ := exists_expression_of_complete hread
    rcases List.eq_nil_or_concat after with rfl | ⟨before, other, rfl⟩
    · rwa [(List.append_inj' htokens rfl).1]
    · rw [List.concat_eq_append, ← List.cons_append, ← List.append_assoc] at htokens
      have hmem : last ∈ body := by
        rw [(List.append_inj' htokens rfl).1]
        simp
      exact absurd hlast (hbody last hmem)
  · intro hexpression
    exact hexpression.ofTokens_append hfinal

end Metrology.Grammar
