import Metrology.Proofs.Expression.Grammar

/-!
# The place of a symbol in an expression

Every symbol of an expression is that of a factor. What stands before it makes up the number and the
factors before, and leaves open what its exponent is and which factors follow: any exponent and any
further factors may stand there, and where no exponent can be read the expression is refused with
the symbol unfinished (`Grammar.Place`). `Expression.hasPlace` finds the place of a symbol. A rule
of the grammar that puts something before a term is described once (`Grammar.Leads`), and places
are found behind whatever leads to a term (`Leads.hasPlace`).
-/

set_option autoImplicit false
set_option relaxedAutoImplicit false

namespace Metrology.Grammar

/-- Tokens behind which a symbol stands for a factor. `grammar` says which tokens stand for which
factors, and `reader` which factors are read from tokens and how these end. -/
structure Place (grammar : List Token → List Factor → Prop)
    (reader : List Token → List Factor → Ending → Prop) (front : List Token) (symbol : Token)
    (before : List Factor) (inverted : Bool) : Prop where
  fill : ∀ {power rest : List Token} {exponent : Int} {after : List Factor}, Power power exponent →
    Tail rest after → grammar (front ++ symbol :: (power ++ rest))
      (before ++ ⟨inverted, ⟨symbol.text, symbol.position⟩, exponent⟩ :: after)
  refuse : ∀ {tokens : List Token} {refusal : GrammarRefusal},
    Outline.exponent tokens = .error refusal →
    reader (front ++ symbol :: tokens) before
      (.broken (some ⟨symbol.text, symbol.position⟩) refusal)
  endsTerm : ∀ tokens, EndsTerm (front ++ symbol :: tokens)

/-- A symbol has its place, with an exponent and further factors behind it. -/
inductive HasPlace (grammar : List Token → List Factor → Prop)
    (reader : List Token → List Factor → Ending → Prop) (front : List Token) (symbol : Token) :
    List Token → List Factor → Prop
  | mk {before after : List Factor} {inverted : Bool} {power rest : List Token} {exponent : Int}
      (hplace : Place grammar reader front symbol before inverted) (hpower : Power power exponent)
      (hrest : Tail rest after) : HasPlace grammar reader front symbol (power ++ rest)
        (before ++ ⟨inverted, ⟨symbol.text, symbol.position⟩, exponent⟩ :: after)

/-- The reader of further factors. -/
def ReadsTail (tokens : List Token) (factors : List Factor) (ending : Ending) : Prop :=
  Outline.tail tokens = (factors, ending)

/-- The reader of expressions. -/
def ReadsExpression (number : Option Float) (tokens : List Token) (factors : List Factor)
    (ending : Ending) : Prop :=
  Outline.ofTokens tokens = ⟨number, factors, ending⟩

/-- Tokens that lead to a term. Its symbol is one of those allowed behind them. -/
structure Leads (grammar : List Token → List Factor → Prop)
    (reader : List Token → List Factor → Ending → Prop) (lead : List Token) (inverted : Bool)
    (allowed : Token → Prop) : Prop where
  grammar : ∀ {symbol : Token} {power rest : List Token} {factor : Factor} {others : List Factor},
    allowed symbol → Term inverted (symbol :: power) factor → Tail rest others →
    grammar (lead ++ (symbol :: power ++ rest)) (factor :: others)
  refuse : ∀ {symbol : Token} {tokens : List Token} {unfinished : Option Occurrence}
    {refusal : GrammarRefusal}, allowed symbol → symbol.kind = .symbol →
    Outline.factor inverted (symbol :: tokens) = .error (unfinished, refusal) →
    reader (lead ++ symbol :: tokens) [] (.broken unfinished refusal)
  read : ∀ {symbol : Token} {tokens rest : List Token} {factor : Factor} {others : List Factor}
    {ending : Ending}, allowed symbol → symbol.kind = .symbol →
    Outline.factor inverted (symbol :: tokens) = .ok (factor, rest) →
    ReadsTail rest others ending → reader (lead ++ symbol :: tokens) (factor :: others) ending
  endsTerm : ∀ {symbol : Token} (tokens : List Token), symbol.kind = .symbol →
    EndsTerm (lead ++ symbol :: tokens)

/-! ### Behind what leads to a term -/

theorem Power.kind_ne_symbol {power : List Token} {exponent : Int} (hpower : Power power exponent) :
    ∀ token ∈ power, token.kind ≠ .symbol := by
  cases hpower with
  | implicit => simp
  | caret hcaret hnumber _ => simp [hcaret, hnumber]
  | superscript hraised _ => simp [hraised]

/-- A symbol behind another one stands behind the exponent of that one. -/
theorem Power.split_symbol {power rest front behind : List Token} {symbol : Token} {exponent : Int}
    (hpower : Power power exponent) (hsymbol : symbol.kind = .symbol)
    (htokens : power ++ rest = front ++ symbol :: behind) :
    ∃ left, front = power ++ left ∧ rest = left ++ symbol :: behind := by
  rcases List.append_eq_append_iff.mp htokens with ⟨left, rfl, rfl⟩ | ⟨taken, rfl, hbehind⟩
  · exact ⟨left, rfl, rfl⟩
  · cases taken with
    | nil => exact ⟨[], by simp, by simpa using hbehind.symm⟩
    | cons other taken =>
      obtain ⟨rfl, _⟩ := List.cons.inj hbehind
      exact absurd hsymbol (hpower.kind_ne_symbol _ (by simp))

variable {grammar : List Token → List Factor → Prop}
  {reader : List Token → List Factor → Ending → Prop} {lead front behind : List Token}
  {symbol : Token}

/-- The symbol of a term has its place, and so have those of the factors behind the term. -/
theorem Leads.hasPlace {inverted : Bool} {allowed : Token → Prop} {first : Token}
    {power rest : List Token} {factor : Factor} {factors : List Factor}
    (hleads : Leads grammar reader lead inverted allowed) (hallowed : allowed first)
    (hterm : Term inverted (first :: power) factor) (htail : Tail rest factors)
    (hrest : ∀ {left}, rest = left ++ symbol :: behind →
      HasPlace Tail ReadsTail left symbol behind factors)
    (hsymbol : symbol.kind = .symbol)
    (htokens : first :: power ++ rest = front ++ symbol :: behind) :
    HasPlace grammar reader (lead ++ front) symbol behind (factor :: factors) := by
  cases hterm with
  | @mk _ _ exponent hfirst hpower =>
    cases front with
    | nil =>
      obtain ⟨rfl, rfl⟩ := List.cons.inj htokens
      rw [List.append_nil]
      refine @HasPlace.mk _ _ _ _ [] _ inverted _ _ _ ⟨fun hpower hrest ↦ ?_, fun hrefused ↦ ?_,
        fun tokens ↦ hleads.endsTerm tokens hfirst⟩ hpower htail
      · exact hleads.grammar hallowed (.mk hfirst hpower) hrest
      · exact hleads.refuse hallowed hfirst (by simp only [Outline.factor, if_pos hfirst, hrefused])
    | cons token front =>
      obtain ⟨rfl, hothers⟩ := List.cons.inj htokens
      obtain ⟨left, rfl, rfl⟩ := hpower.split_symbol hsymbol hothers
      have hterm : Term inverted (first :: power)
          ⟨inverted, ⟨first.text, first.position⟩, exponent⟩ := .mk hfirst hpower
      cases hrest rfl with
      | mk hplace hexponent hafter =>
        refine @HasPlace.mk _ _ _ _ (_ :: _) _ _ _ _ _ ⟨fun hpower hrest ↦ ?_, fun hrefused ↦ ?_,
          fun tokens ↦ ?_⟩ hexponent hafter
        · have hgrammar := hleads.grammar hallowed hterm (hplace.fill hpower hrest)
          simpa using hgrammar
        · have hread := hleads.read hallowed hfirst (hterm.factor_append (hplace.endsTerm _))
            (hplace.refuse hrefused)
          simpa using hread
        · have hends := hleads.endsTerm (power ++ (left ++ symbol :: tokens)) hfirst
          simpa using hends

/-! ### Further terms -/

theorem leads_operator {operator : Token} {inverted : Bool}
    (hoperator : operator.kind = operatorKind inverted) :
    Leads Tail ReadsTail [operator] inverted fun _ ↦ True := by
  have hkind : operator.kind ≠ .finish := by
    cases inverted <;> simp [hoperator, operatorKind]
  have hnext : ∀ tokens, Outline.nextFactor operator tokens = Outline.factor inverted tokens := by
    intro tokens
    cases inverted <;> simp [Outline.nextFactor, hoperator, operatorKind]
  refine ⟨fun _ hterm htail ↦ ?_, fun _ _ hrefused ↦ ?_, fun _ _ hfactor hread ↦ ?_,
    fun tokens _ ↦ ⟨operator, _, rfl, ?_, ?_⟩⟩
  · have hcons := Tail.operator hoperator hterm htail
    exact hcons
  · exact tail_cons_of_refusal hkind ((hnext _).trans hrefused)
  · rw [ReadsTail] at hread ⊢
    rw [List.singleton_append, tail_cons_of_nextFactor hkind ((hnext _).trans hfactor), hread]
  all_goals cases inverted <;> simp [hoperator, operatorKind]

theorem leads_blank : Leads Tail ReadsTail [] false fun symbol ↦ symbol.spaced = true := by
  have hnext : ∀ {symbol : Token} (tokens), symbol.kind = .symbol → symbol.spaced = true →
      Outline.nextFactor symbol tokens = Outline.factor false (symbol :: tokens) := by
    intro symbol tokens hsymbol hspaced
    simp [Outline.nextFactor, hsymbol, hspaced]
  refine ⟨fun hspaced hterm htail ↦ .blank hspaced hterm htail, fun hspaced hsymbol hrefused ↦ ?_,
    fun hspaced hsymbol hfactor hread ↦ ?_, fun tokens hsymbol ↦ ⟨_, tokens, rfl, ?_, ?_⟩⟩
  · exact tail_cons_of_refusal (by simp [hsymbol]) ((hnext _ hsymbol hspaced).trans hrefused)
  · rw [ReadsTail] at hread ⊢
    rw [List.nil_append, tail_cons_of_nextFactor (by simp [hsymbol])
      ((hnext _ hsymbol hspaced).trans hfactor), hread]
  all_goals simp [hsymbol]

theorem Tail.hasPlace {body : List Token} {factors : List Factor} (htail : Tail body factors)
    (hsymbol : symbol.kind = .symbol) (htokens : body = front ++ symbol :: behind) :
    HasPlace Tail ReadsTail front symbol behind factors := by
  induction htail generalizing front with
  | nil => simp at htokens
  | @operator operator inverted term rest factor factors hoperator hterm htail ih =>
    cases front with
    | nil =>
      obtain ⟨rfl, _⟩ := List.cons.inj htokens
      cases inverted <;> cases hsymbol.symm.trans hoperator
    | cons first front =>
      obtain ⟨rfl, hothers⟩ := List.cons.inj htokens
      cases hterm with
      | mk hfirst hpower =>
        exact (leads_operator hoperator).hasPlace trivial (.mk hfirst hpower) htail ih hsymbol
          hothers
  | blank hspaced hterm htail ih =>
    exact leads_blank.hasPlace hspaced hterm htail ih hsymbol htokens

/-! ### Expressions -/

section

variable {number : Token} {value : Float} {integer : Option Int}
  (hnumber : number.kind = .number value integer)

/-- Nothing leads to the first term of an expression without number. -/
theorem leads_nil : Leads (Expression · none) (ReadsExpression none) [] false fun _ ↦ True := by
  refine ⟨fun _ hterm htail ↦ ?_, fun _ hsymbol hrefused ↦ ?_, fun _ hsymbol hfactor hread ↦ ?_,
    fun tokens hsymbol ↦ ⟨_, tokens, rfl, ?_, ?_⟩⟩
  · have hterms := Expression.terms hterm htail
    exact hterms
  · simp only [ReadsExpression, List.nil_append, Outline.ofTokens, hsymbol, Outline.leading,
      hrefused]
  · rw [ReadsTail] at hread
    simp only [ReadsExpression, List.nil_append, Outline.ofTokens, hsymbol, Outline.leading,
      hfactor, hread]
  all_goals simp [hsymbol]

include hnumber

theorem leads_number :
    Leads (Expression · (some value)) (ReadsExpression (some value)) [number] false
      fun _ ↦ True := by
  refine ⟨fun _ hterm htail ↦ ?_, fun _ hsymbol hrefused ↦ ?_, fun _ hsymbol hfactor hread ↦ ?_,
    fun tokens hsymbol ↦ ⟨number, _, rfl, ?_, ?_⟩⟩
  · have hterms := Expression.numberTerms hnumber hterm htail
    exact hterms
  · simp [ReadsExpression, Outline.ofTokens, hnumber, Outline.afterNumber, hsymbol, Outline.leading,
      hrefused]
  · rw [ReadsTail] at hread
    simp [ReadsExpression, Outline.ofTokens, hnumber, Outline.afterNumber, hsymbol, Outline.leading,
      hfactor, hread]
  all_goals simp [hnumber]

theorem leads_numberOperator {operator : Token} {inverted : Bool}
    (hoperator : operator.kind = operatorKind inverted) :
    Leads (Expression · (some value)) (ReadsExpression (some value)) [number, operator] inverted
      fun _ ↦ True := by
  have hleads := leads_operator hoperator
  have hstarts : operator.kind = .times ∨ operator.kind = .divide := by
    cases inverted <;> simp [hoperator, operatorKind]
  have hread : ∀ {tokens factors ending}, ReadsTail (operator :: tokens) factors ending →
      ReadsExpression (some value) (number :: operator :: tokens) factors ending := by
    intro tokens factors ending hread
    rw [ReadsTail] at hread
    simp only [ReadsExpression, Outline.ofTokens, hnumber, Outline.afterNumber,
      if_pos (Or.inr hstarts), hread]
  refine ⟨fun _ hterm htail ↦ ?_,
    fun _ hsymbol hrefused ↦ hread (hleads.refuse trivial hsymbol hrefused),
    fun _ hsymbol hfactor htail ↦ hread (hleads.read trivial hsymbol hfactor htail),
    fun tokens hsymbol ↦ ⟨number, _, rfl, ?_, ?_⟩⟩
  · have hterms := Expression.numberOperator hnumber hoperator hterm htail
    exact hterms
  all_goals simp [hnumber]

end

/-- Every symbol of an expression has its place. -/
theorem Expression.hasPlace {body : List Token} {number : Option Float} {factors : List Factor}
    (hexpression : Expression body number factors) (hsymbol : symbol.kind = .symbol)
    (htokens : body = front ++ symbol :: behind) :
    HasPlace (Expression · number) (ReadsExpression number) front symbol behind factors := by
  cases hexpression with
  | number hnumber =>
    have hmem : symbol ∈ front ++ symbol :: behind := List.mem_append_right front List.mem_cons_self
    rw [← htokens, List.mem_singleton] at hmem
    subst hmem
    cases hsymbol.symm.trans hnumber
  | terms hterm htail =>
    cases hterm with
    | mk hfirst hpower =>
      exact leads_nil.hasPlace trivial (.mk hfirst hpower) htail (htail.hasPlace hsymbol) hsymbol
        htokens
  | numberTerms hnumber hterm htail =>
    cases front with
    | nil =>
      obtain ⟨rfl, _⟩ := List.cons.inj htokens
      cases hsymbol.symm.trans hnumber
    | cons first front =>
      obtain ⟨rfl, hothers⟩ := List.cons.inj htokens
      cases hterm with
      | mk hfirst hpower =>
        exact (leads_number hnumber).hasPlace trivial (.mk hfirst hpower) htail
          (htail.hasPlace hsymbol) hsymbol hothers
  | @numberOperator _ operator _ _ inverted _ _ _ _ hnumber hoperator hterm htail =>
    cases front with
    | nil =>
      obtain ⟨rfl, _⟩ := List.cons.inj htokens
      cases hsymbol.symm.trans hnumber
    | cons first front =>
      obtain ⟨rfl, hothers⟩ := List.cons.inj htokens
      cases front with
      | nil =>
        obtain ⟨rfl, _⟩ := List.cons.inj hothers
        cases inverted <;> cases hsymbol.symm.trans hoperator
      | cons second front =>
        obtain ⟨rfl, hbehind⟩ := List.cons.inj hothers
        cases hterm with
        | mk hfirst hpower =>
          exact (leads_numberOperator hnumber hoperator).hasPlace trivial (.mk hfirst hpower) htail
            (htail.hasPlace hsymbol) hsymbol hbehind

end Metrology.Grammar
