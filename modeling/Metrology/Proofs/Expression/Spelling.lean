import Metrology.Proofs.Expression.Grammar
import Metrology.Proofs.Expression.Joining

/-!
# Spellings of one expression

Tokens are respelled when they stand elsewhere, have blanks before them that they had not, or are
another sign of multiplication, and where a sign of multiplication is left out before blanks
(`Respelled`). An exponent in superscripts is the one token that blanks may not be put before, when
it is attached to a symbol. Respelled tokens of an expression are an expression again, with the same
number, and with the same factors but for their places (`Expression.exists_of_respelled`).
-/

set_option autoImplicit false
set_option relaxedAutoImplicit false

namespace Metrology

/-- A factor without its place. -/
def Factor.unplaced (factor : Factor) : Factor :=
  { factor with occurrence := { factor.occurrence with position := 0 } }

/-- Another spelling of a token. An exponent in superscripts stays without blanks before it when it
is attached to a symbol. -/
structure Token.Alike (attached : Prop) (token other : Token) : Prop where
  kind : other.kind = token.kind
  text : token.kind = .symbol → other.text = token.text
  spaced : token.spaced = true → other.spaced = true
  raised : attached → ∀ exponent, token.kind = .superscript exponent → token.spaced = false →
    other.spaced = false

namespace Token.Alike

variable {attached : Prop}

theorem refl (token : Token) : Alike attached token token :=
  ⟨rfl, fun _ ↦ rfl, id, fun _ _ _ hspaced ↦ hspaced⟩

/-- A token may stand anywhere. -/
theorem shift (token : Token) (first second : Nat) :
    Alike attached (token.shift first) (token.shift second) :=
  ⟨rfl, fun _ ↦ rfl, id, fun _ _ _ hspaced ↦ hspaced⟩

/-- A token that is neither a symbol nor an exponent may have any text, and blanks before it. -/
theorem of_kind {token other : Token} (hkind : other.kind = token.kind)
    (hsymbol : token.kind ≠ .symbol) (hraised : ∀ exponent, token.kind ≠ .superscript exponent)
    (hspaced : token.spaced = true → other.spaced = true) : Alike attached token other :=
  ⟨hkind, fun h ↦ absurd h hsymbol, hspaced, fun _ exponent h ↦ absurd h (hraised exponent)⟩

end Token.Alike

namespace Grammar

/-- Tokens in another spelling. `attached` says that a symbol stands right before them. -/
inductive Respelled : Prop → List Token → List Token → Prop
  | nil {attached : Prop} : Respelled attached [] []
  | cons {attached : Prop} {token other : Token} {rest others : List Token}
      (halike : Token.Alike attached token other)
      (hrest : Respelled (token.kind = .symbol) rest others) :
      Respelled attached (token :: rest) (other :: others)
  | implicit {attached : Prop} {times next : Token} {rest others : List Token}
      (htimes : times.kind = .times) (hspaced : next.spaced = true)
      (hrest : Respelled False rest (next :: others)) :
      Respelled attached (times :: rest) (next :: others)

/-! ### Respelled expressions -/

section

variable {attached : Prop} {rest tokens : List Token}

/-- The exponent of a symbol is an exponent in any spelling. -/
theorem Power.exists_of_respelled {power : List Token} {exponent : Int}
    (hpower : Power power exponent) (hattached : attached)
    (hrespelled : Respelled attached (power ++ rest) tokens) :
    ∃ other others, tokens = other ++ others ∧ Power other exponent ∧
      ∃ behind, Respelled behind rest others := by
  cases hpower with
  | implicit => exact ⟨[], tokens, rfl, .implicit, attached, hrespelled⟩
  | caret hcaret hnumber hrange =>
    cases hrespelled with
    | @cons _ _ caret _ _ hcaretAlike hbehind =>
      cases hbehind with
      | @cons _ _ number _ others hnumberAlike hothers =>
        exact ⟨[caret, number], others, rfl, .caret (hcaretAlike.kind.trans hcaret)
          (hnumberAlike.kind.trans hnumber) hrange, _, hothers⟩
      | implicit htimes => cases hnumber.symm.trans htimes
    | implicit htimes => cases hcaret.symm.trans htimes
  | superscript hraised hspaced =>
    cases hrespelled with
    | @cons _ _ raised _ others halike hothers =>
      exact ⟨[raised], others, rfl, .superscript (halike.kind.trans hraised)
        (halike.raised hattached _ hraised hspaced), _, hothers⟩
    | implicit htimes => cases hraised.symm.trans htimes

/-- A term is a term in any spelling, and keeps the blanks before it. -/
theorem Term.exists_of_respelled {inverted : Bool} {symbol : Token} {power : List Token}
    {factor : Factor} (hterm : Term inverted (symbol :: power) factor)
    (hrespelled : Respelled attached (symbol :: (power ++ rest)) tokens) :
    ∃ other behind others factor', tokens = other :: (behind ++ others) ∧
      Term inverted (other :: behind) factor' ∧ factor'.unplaced = factor.unplaced ∧
      (symbol.spaced = true → other.spaced = true) ∧ ∃ after, Respelled after rest others := by
  cases hterm with
  | @mk _ _ exponent hsymbol hpower =>
    cases hrespelled with
    | @cons _ _ other _ _ halike hrest =>
      obtain ⟨behind, others, rfl, hbehind, hothers⟩ := hpower.exists_of_respelled hsymbol hrest
      refine ⟨other, behind, others, _, rfl, .mk (halike.kind.trans hsymbol) hbehind, ?_,
        halike.spaced, hothers⟩
      rw [Factor.unplaced, Factor.unplaced, halike.text hsymbol]
    | implicit htimes => cases hsymbol.symm.trans htimes

theorem Term.exists_cons {inverted : Bool} {term : List Token} {factor : Factor}
    (hterm : Term inverted term factor) : ∃ symbol power, term = symbol :: power := by
  cases hterm with
  | mk => exact ⟨_, _, rfl⟩

variable {final : Token} (hfinal : final.kind = .finish)

include hfinal

/-- Further terms are further terms in any spelling: a sign of multiplication that is left out makes
room for blanks. -/
theorem Tail.exists_of_respelled {body : List Token} {factors : List Factor}
    (htail : Tail body factors) (hrespelled : Respelled attached (body ++ [final]) tokens) :
    ∃ other last others, tokens = other ++ [last] ∧ last.kind = .finish ∧ Tail other others ∧
      others.map Factor.unplaced = factors.map Factor.unplaced := by
  induction htail generalizing attached tokens with
  | nil =>
    cases hrespelled with
    | @cons _ _ last _ _ halike hrest =>
      cases hrest
      exact ⟨[], last, [], rfl, halike.kind.trans hfinal, .nil, rfl⟩
    | implicit htimes => cases hfinal.symm.trans htimes
  | @operator operator inverted term rest factor factors hoperator hterm _ ih =>
    obtain ⟨symbol, power, rfl⟩ := hterm.exists_cons
    rw [List.cons_append, List.cons_append, List.cons_append, List.append_assoc] at hrespelled
    cases hrespelled with
    | @cons _ _ sign _ _ halike hrest =>
      obtain ⟨other, behind, after, factor', rfl, hother, hfactor, _, _, hafter⟩ :=
        hterm.exists_of_respelled hrest
      obtain ⟨body, last, others, rfl, hlast, htail, hothers⟩ := ih hafter
      exact ⟨sign :: (other :: behind ++ body), last, factor' :: others, by simp, hlast,
        .operator (halike.kind.trans hoperator) hother htail, by simp [hfactor, hothers]⟩
    | implicit htimes hspaced hrest =>
      -- only a factor that is not inverted may do without its operator
      obtain rfl : inverted = false := by
        cases inverted with
        | false => rfl
        | true => cases hoperator.symm.trans htimes
      obtain ⟨other, behind, after, factor', htokens, hother, hfactor, _, _, hafter⟩ :=
        hterm.exists_of_respelled hrest
      obtain ⟨rfl, rfl⟩ := List.cons.inj htokens
      obtain ⟨body, last, others, rfl, hlast, htail, hothers⟩ := ih hafter
      exact ⟨_ :: behind ++ body, last, factor' :: others, by simp, hlast,
        .blank hspaced hother htail, by simp [hfactor, hothers]⟩
  | @blank symbol power rest factor factors hspaced hterm _ ih =>
    rw [List.cons_append, List.cons_append, List.append_assoc] at hrespelled
    obtain ⟨other, behind, after, factor', rfl, hother, hfactor, hkept, _, hafter⟩ :=
      hterm.exists_of_respelled hrespelled
    obtain ⟨body, last, others, rfl, hlast, htail, hothers⟩ := ih hafter
    exact ⟨other :: behind ++ body, last, factor' :: others, by simp, hlast,
      .blank (hkept hspaced) hother htail, by simp [hfactor, hothers]⟩

/-- A first term and further terms, in any spelling. -/
theorem Term.exists_terms_of_respelled {term : List Token} {factor : Factor}
    {factors : List Factor} (hterm : Term false term factor) (htail : Tail rest factors)
    (hrespelled : Respelled attached (term ++ rest ++ [final]) tokens) :
    ∃ first other last factor' others, tokens = first ++ other ++ [last] ∧ last.kind = .finish ∧
      Term false first factor' ∧ Tail other others ∧
      (factor' :: others).map Factor.unplaced = (factor :: factors).map Factor.unplaced := by
  obtain ⟨symbol, power, rfl⟩ := hterm.exists_cons
  rw [List.cons_append, List.cons_append, List.append_assoc] at hrespelled
  obtain ⟨other, behind, after, factor', rfl, hother, hfactor, _, _, hafter⟩ :=
    hterm.exists_of_respelled hrespelled
  obtain ⟨body, last, others, rfl, hlast, htail, hothers⟩ := htail.exists_of_respelled hfinal hafter
  exact ⟨other :: behind, body, last, factor', others, by simp, hlast, hother, htail,
    by simp [hfactor, hothers]⟩

/-- An expression is an expression in any spelling, of the same number and factors. -/
theorem Expression.exists_of_respelled {body : List Token} {number : Option Float}
    {factors : List Factor} (hexpression : Expression body number factors)
    (hrespelled : Respelled attached (body ++ [final]) tokens) :
    ∃ other last others, tokens = other ++ [last] ∧ last.kind = .finish ∧
      Expression other number others ∧
      others.map Factor.unplaced = factors.map Factor.unplaced := by
  -- a number with further terms behind it, none of which is read as a first one
  have hnumbered : ∀ {first : Token} {value : Float} {integer : Option Int} {behind : List Token}
      {factors : List Factor}, first.kind = .number value integer → Tail behind factors →
      Respelled attached (first :: (behind ++ [final])) tokens →
      ∃ other last others, tokens = other ++ [last] ∧ last.kind = .finish ∧
        Expression other (some value) others ∧
        others.map Factor.unplaced = factors.map Factor.unplaced := by
    intro first value integer behind factors hnumber htail hrespelled
    cases hrespelled with
    | @cons _ _ first' _ _ halike hrest =>
      obtain ⟨other, last, others, rfl, hlast, htail, hothers⟩ :=
        htail.exists_of_respelled hfinal hrest
      exact ⟨first' :: other, last, others, rfl, hlast,
        htail.expression_cons (halike.kind.trans hnumber), hothers⟩
    | implicit htimes => cases hnumber.symm.trans htimes
  cases hexpression with
  | number hnumber => exact hnumbered hnumber .nil hrespelled
  | terms hterm htail =>
    obtain ⟨first, other, last, factor', others, rfl, hlast, hfirst, hother, hothers⟩ :=
      hterm.exists_terms_of_respelled hfinal htail hrespelled
    exact ⟨_, last, _, rfl, hlast, .terms hfirst hother, hothers⟩
  | numberTerms hnumber hterm htail =>
    cases hrespelled with
    | @cons _ _ number' _ _ halike hrest =>
      obtain ⟨first, other, last, factor', others, rfl, hlast, hfirst, hother, hothers⟩ :=
        hterm.exists_terms_of_respelled hfinal htail hrest
      exact ⟨number' :: (first ++ other), last, _, rfl, hlast,
        .numberTerms (halike.kind.trans hnumber) hfirst hother, hothers⟩
    | implicit htimes => cases hnumber.symm.trans htimes
  | numberOperator hnumber hoperator hterm htail =>
    exact hnumbered hnumber (.operator hoperator hterm htail) hrespelled

end

/-! ### Respelling a part -/

namespace Respelled

variable {rest others : List Token}

/-- What stands before respelled tokens stays as it is. -/
theorem append_left (body : List Token) (hrest : ∀ attached, Respelled attached rest others)
    (attached : Prop) : Respelled attached (body ++ rest) (body ++ others) := by
  induction body generalizing attached with
  | nil => exact hrest attached
  | cons token _ ih => exact .cons (.refl token) (ih _)

/-- Tokens may stand anywhere. -/
theorem shift (tokens : List Token) (first second : Nat) (attached : Prop) :
    Respelled attached (tokens.map (Token.shift first)) (tokens.map (Token.shift second)) := by
  induction tokens generalizing attached with
  | nil => exact .nil
  | cons token rest ih => exact .cons (.shift token first second) (ih _)

/-- Blanks may be put before tokens that do not stand behind a symbol. -/
theorem behindBlanks (tokens : List Token) (first second : Nat) {attached : Prop}
    (hfree : ¬ attached) :
    Respelled attached (tokens.map (Token.shift first)) (Token.behindBlanks second tokens) := by
  cases tokens with
  | nil => exact .nil
  | cons token rest =>
    exact .cons ⟨rfl, fun _ ↦ rfl, fun _ ↦ rfl, fun hattached ↦ absurd hattached hfree⟩
      (shift rest first second _)

/-- Blanks may be any blanks. -/
theorem behindBlanks_shift (tokens : List Token) (first second : Nat) (attached : Prop) :
    Respelled attached (Token.behindBlanks first tokens) (Token.behindBlanks second tokens) := by
  cases tokens with
  | nil => exact .nil
  | cons token rest =>
    exact .cons (.shift token.afterBlanks first second) (shift rest first second _)

end Respelled

end Grammar

end Metrology
