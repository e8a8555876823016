import Metrology.Proofs.Expression.Walk
import Metrology.Proofs.Vocabulary.RoundTrip

/-!
# What a walk comes to

The walk through the tokens of an expression comes to what `Vocabulary.parse` says
(`Walk.map_fst_expression`): part for part, it reads by index what the outline reads from the rest
of the tokens (`Traced.observe`). For the tokens of a text, which end with their only end of input,
it never leaves them (`Vocabulary.walk_spec`).
-/

set_option autoImplicit false
set_option relaxedAutoImplicit false

namespace Metrology

namespace Walk

/-! ### Results -/

section

variable {vocabulary : Vocabulary} {input : Text} {tokens : List Token} {α β : Type} {index : Nat}

@[simp] theorem result_lift (result : Except Error α) :
    (lift result index).result = result.map (·, index) := rfl

@[simp] theorem result_refuse (refusal : GrammarRefusal) :
    ((refuse input refusal : Walk α) index).result = .error (refusal.error input) := rfl

theorem tokenAt_of_drop_nil (hdrop : tokens.drop index = []) :
    tokenAt input tokens index = .error (Outline.unterminated.error input) := by
  rw [tokenAt, List.getElem?_eq_none (List.drop_eq_nil_iff.mp hdrop)]

theorem tokenAt_of_drop_cons {token : Token} {rest : List Token}
    (hdrop : tokens.drop index = token :: rest) : tokenAt input tokens index = .ok token := by
  have htoken : tokens[index]? = some token := by
    rw [← List.head?_drop, hdrop, List.head?_cons]
  rw [tokenAt, htoken]

theorem drop_succ_of_drop_cons {token : Token} {rest : List Token}
    (hdrop : tokens.drop index = token :: rest) : tokens.drop (index + 1) = rest := by
  rw [← List.drop_drop, hdrop, List.drop_one, List.tail_cons]

@[simp] theorem result_sees (test : TokenKind → Bool) : (sees input tokens test index).result =
    (tokenAt input tokens index).map fun token ↦ (test token.kind, index) := by
  simp only [sees, Traced.result_stateT_bind, peek, Traced.result_stateT_pure]
  cases tokenAt input tokens index <;> rfl

@[simp] theorem result_peek : (peek input tokens index).result =
    (tokenAt input tokens index).map (·, index) := rfl

@[simp] theorem result_next : (next input tokens index).result =
    (tokenAt input tokens index).map (·, index + 1) := rfl

@[simp] theorem result_unexpected (expectation : Expectation) :
    ((unexpected input tokens expectation : Walk α) index).result =
      (tokenAt input tokens index).bind fun token ↦
        .error ((Outline.unexpected expectation token).error input) := by
  simp only [unexpected, Traced.result_stateT_bind, result_peek, result_refuse]
  cases tokenAt input tokens index <;> rfl

theorem observe_caretExponent : Traced.observe tokens (caretExponent input tokens index) =
    (Outline.caretExponent (tokens.drop index)).mapError (·.error input) := by
  cases hdrop : tokens.drop index with
  | nil =>
    have hnone : tokenAt input tokens index = _ := tokenAt_of_drop_nil hdrop
    simp [Traced.observe, caretExponent, Outline.caretExponent, hnone]
  | cons number rest =>
    have hnumber : tokenAt input tokens index = .ok number := tokenAt_of_drop_cons hdrop
    have hrest := drop_succ_of_drop_cons hdrop
    rw [Traced.observe, caretExponent, Outline.caretExponent]
    cases hkind : number.kind with
    | number value integer =>
      cases integer with
      | none => simp [hnumber, hkind, TokenKind.isNumber, TokenKind.integer?]
      | some exponent =>
        by_cases hrange : Lexer.exponentLimit < exponent.natAbs
        · simp [hnumber, hkind, TokenKind.isNumber, TokenKind.integer?, hrange]
        · simp [hnumber, hkind, TokenKind.isNumber, TokenKind.integer?, hrange, hrest]
    | _ => simp [hnumber, hkind, TokenKind.isNumber]

theorem observe_writtenExponent {token : Token} {rest : List Token}
    (hdrop : tokens.drop index = token :: rest)
    (hkind : token.kind = .caret ∨ token.kind.isSuperscript = true) :
    Traced.observe tokens (writtenExponent input tokens index) =
      (Outline.exponent (token :: rest)).mapError (·.error input) := by
  have htoken : tokenAt input tokens index = .ok token := tokenAt_of_drop_cons hdrop
  have hrest := drop_succ_of_drop_cons hdrop
  cases hcase : token.kind with
  | superscript exponent =>
    rw [Traced.observe, writtenExponent, Outline.exponent]
    by_cases hspaced : token.spaced = true
    · simp [htoken, hcase, hspaced, TokenKind.isSuperscript]
    · simp [htoken, hcase, hspaced, TokenKind.isSuperscript, TokenKind.exponent, hrest]
  | caret =>
    have hbehind := @observe_caretExponent input tokens (index + 1)
    rw [hrest] at hbehind
    simp only [Outline.exponent, hcase]
    rw [← hbehind]
    simp [Traced.observe, writtenExponent, htoken, hcase, TokenKind.isSuperscript]
  | _ => simp [hcase, TokenKind.isSuperscript] at hkind

theorem observe_exponent : Traced.observe tokens (exponent input tokens index) =
    (Outline.exponent (tokens.drop index)).mapError (·.error input) := by
  cases hdrop : tokens.drop index with
  | nil =>
    have hnone : tokenAt input tokens index = _ := tokenAt_of_drop_nil hdrop
    simp [Traced.observe, exponent, Outline.exponent, hnone]
  | cons token rest =>
    have htoken : tokenAt input tokens index = .ok token := tokenAt_of_drop_cons hdrop
    by_cases hcaret : token.kind = .caret
    · rw [← observe_writtenExponent hdrop (.inl hcaret)]
      simp [Traced.observe, exponent, htoken, hcaret]
    · by_cases hraised : token.kind.isSuperscript = true
      · rw [← observe_writtenExponent hdrop (.inr hraised)]
        simp [Traced.observe, exponent, htoken, hcaret, hraised]
      · have hnone : Outline.exponent (token :: rest) = .ok (1, token :: rest) := by
          cases hkind : token.kind <;>
            simp_all [Outline.exponent, TokenKind.isSuperscript]
        simp [Traced.observe, exponent, htoken, hcaret, hraised, hnone, hdrop]

/-! ### Factors -/

/-- The quantity of a factor that was read, with the tokens behind it. -/
def quantityOf (vocabulary : Vocabulary) (input : Text) (left : Option Quantity) :
    Except (Option Occurrence × GrammarRefusal) (Factor × List Token) →
      Except Error (Quantity × List Token)
  | .ok (factor, rest) =>
    ((factor.quantity vocabulary input).bind (factor.apply left)).map (·, rest)
  | .error (unfinished, refusal) => .error (Ending.error vocabulary input unfinished refusal)

theorem observe_bind {first : Walk α} {behind : α → Walk β}
    {onward : α × List Token → Except Error (β × List Token)}
    (hbehind : ∀ value next, (first index).result = .ok (value, next) →
      Traced.observe tokens (behind value next) = onward (value, tokens.drop next)) :
    Traced.observe tokens ((first >>= behind) index) =
      (Traced.observe tokens (first index)).bind onward :=
  Traced.observe_bind hbehind

theorem observe_lift (result : Except Error α) :
    Traced.observe tokens (lift result index) = result.map (·, tokens.drop index) := by
  cases result <;> rfl

theorem observe_term (inverted : Bool) :
    Traced.observe tokens (term vocabulary input tokens index) =
      quantityOf vocabulary input none (Outline.factor inverted (tokens.drop index)) := by
  cases hdrop : tokens.drop index with
  | nil =>
    have hnone : tokenAt input tokens index = _ := tokenAt_of_drop_nil hdrop
    simp [Traced.observe, term, Outline.factor, hnone, quantityOf, Ending.error,
      GrammarRefusal.error]
  | cons token rest =>
    have htoken : tokenAt input tokens index = .ok token := tokenAt_of_drop_cons hdrop
    have hrest := drop_succ_of_drop_cons hdrop
    by_cases hsymbol : token.kind = .symbol
    · simp only [Outline.factor, if_pos hsymbol]
      cases hresolve : Occurrence.resolve vocabulary input ⟨token.text, token.position⟩ with
      | error error =>
        have hobserved :
            Traced.observe tokens (term vocabulary input tokens index) = .error error := by
          simp [Traced.observe, term, htoken, hsymbol, hresolve]
        rw [hobserved]
        cases Outline.exponent rest <;> simp [quantityOf, Ending.error, Factor.quantity, hresolve]
      | ok reading =>
        have hobserved : Traced.observe tokens (term vocabulary input tokens index) =
            (Traced.observe tokens (exponent input tokens (index + 1))).bind fun read ↦
              (reading.power read.1).map (·, read.2) := by
          rw [← observe_bind fun value next _ ↦ observe_lift (reading.power value)]
          simp [Traced.observe, term, htoken, hsymbol, hresolve]
        rw [hobserved, observe_exponent, hrest]
        cases Outline.exponent rest with
        | error refusal => simp [quantityOf, Ending.error, hresolve, GrammarRefusal.error]
        | ok read =>
          cases hpower : reading.power read.1 <;>
            simp [quantityOf, Factor.quantity, Factor.apply, hresolve, hpower]
    · simp [Traced.observe, term, Outline.factor, htoken, hsymbol, quantityOf, Ending.error,
        GrammarRefusal.error]

theorem observe_factor (inverted : Bool) (left : Quantity) :
    Traced.observe tokens (factor vocabulary input tokens inverted left index) =
      quantityOf vocabulary input (some left) (Outline.factor inverted (tokens.drop index)) := by
  have hobserved : Traced.observe tokens (factor vocabulary input tokens inverted left index) =
      (Traced.observe tokens (term vocabulary input tokens index)).bind fun read ↦
        ((if inverted then left.div read.1 else left.mul read.1).mapError Error.dimension).map
          (·, read.2) :=
    observe_bind fun _ _ _ ↦ observe_lift _
  rw [hobserved, observe_term inverted]
  cases hfactor : Outline.factor inverted (tokens.drop index) with
  | error refused => rfl
  | ok read =>
    obtain ⟨result, rest⟩ := read
    have hinverted : result.inverted = inverted := by
      obtain ⟨term, hterm, _⟩ := Grammar.exists_term_of_factor hfactor
      cases hterm with
      | mk => rfl
    cases hquantity : result.quantity vocabulary input <;>
      simp [quantityOf, Factor.apply, hquantity, hinverted]

theorem observe_round {token : Token} {rest : List Token}
    (hdrop : tokens.drop index = token :: rest) (hkind : token.kind ≠ .finish) (left : Quantity) :
    Traced.observe tokens (round vocabulary input tokens left index) =
      quantityOf vocabulary input (some left) (Outline.nextFactor token rest) := by
  have htoken : tokenAt input tokens index = .ok token := tokenAt_of_drop_cons hdrop
  have hoperator : ∀ inverted, token.kind = Grammar.operatorKind inverted →
      Traced.observe tokens (round vocabulary input tokens left index) =
        Traced.observe tokens (factor vocabulary input tokens inverted left (index + 1)) := by
    intro inverted hoperator
    cases inverted <;>
      simp_all [Traced.observe, round, Grammar.operatorKind]
  cases hcase : token.kind with
  | times =>
    rw [hoperator false hcase, observe_factor, drop_succ_of_drop_cons hdrop]
    simp [Outline.nextFactor, hcase]
  | divide =>
    rw [hoperator true hcase, observe_factor, drop_succ_of_drop_cons hdrop]
    simp [Outline.nextFactor, hcase]
  | symbol =>
    by_cases hspaced : token.spaced = true
    · have hfactor := @observe_factor vocabulary input tokens index false left
      rw [hdrop] at hfactor
      simp only [Outline.nextFactor, hcase, hspaced, if_true]
      rw [← hfactor]
      simp [Traced.observe, round, htoken, hcase, hspaced]
    · simp [Traced.observe, round, htoken, hcase, hspaced, Outline.nextFactor, quantityOf,
        Ending.error, GrammarRefusal.error]
  | finish => exact absurd hcase hkind
  | _ =>
    simp [Traced.observe, round, htoken, hcase, Outline.nextFactor, quantityOf, Ending.error,
      GrammarRefusal.error]

/-! ### The loop and the whole expression -/

/-- What factors and their ending come to behind what stands left of them. -/
def conclude (vocabulary : Vocabulary) (input : Text) (left : Option Quantity)
    (read : List Factor × Ending) : Except Error Quantity :=
  (evaluateFactors vocabulary input left read.1).bind fun result ↦
    match read.2 with
    | .complete => .ok (result.getD (.number 1.0))
    | .broken unfinished refusal => .error (Ending.error vocabulary input unfinished refusal)

/-- Reading on behind a factor comes to what the factor and those behind it come to. -/
def resume (vocabulary : Vocabulary) (input : Text) (read : Quantity × List Token) :
    Except Error Quantity :=
  conclude vocabulary input (some read.1) (Outline.tail read.2)

theorem conclude_cons (left : Option Quantity) (first : Factor) (rest : List Token) :
    conclude vocabulary input left (first :: (Outline.tail rest).1, (Outline.tail rest).2) =
      (quantityOf vocabulary input left (.ok (first, rest))).bind (resume vocabulary input) := by
  rw [conclude, evaluateFactors, quantityOf]
  cases (first.quantity vocabulary input).bind (first.apply left) <;> rfl

theorem conclude_tail {token : Token} (hkind : token.kind ≠ .finish) (left : Option Quantity)
    (rest : List Token) :
    conclude vocabulary input left (Outline.tail (token :: rest)) =
      (quantityOf vocabulary input left (Outline.nextFactor token rest)).bind
        (resume vocabulary input) := by
  cases hfactor : Outline.nextFactor token rest with
  | error refused =>
    rw [Grammar.tail_cons_of_refusal hkind hfactor]
    rfl
  | ok read => rw [Grammar.tail_cons_of_nextFactor hkind hfactor, conclude_cons]

theorem conclude_leading (left : Option Quantity) (list : List Token) :
    conclude vocabulary input left (Outline.leading list) =
      (quantityOf vocabulary input left (Outline.factor false list)).bind
        (resume vocabulary input) := by
  rw [Outline.leading]
  cases Outline.factor false list with
  | error refused => rfl
  | ok read => exact conclude_cons left read.1 read.2

/-- The walk through further factors comes to what their outline does. -/
theorem map_fst_rounds (left : Quantity) (index : Nat) :
    (rounds vocabulary input tokens left index).result.map Prod.fst =
      resume vocabulary input (left, tokens.drop index) := by
  induction left, index using @rounds_induction vocabulary input tokens with
  | hround left index ih =>
    cases hdrop : tokens.drop index with
    | nil =>
      have hnone : tokenAt input tokens index = _ := tokenAt_of_drop_nil hdrop
      rw [rounds_eq]
      simp [hnone, resume, Outline.tail, conclude, evaluateFactors, Ending.error,
        GrammarRefusal.error]
    | cons token rest =>
      have htoken : tokenAt input tokens index = .ok token := tokenAt_of_drop_cons hdrop
      by_cases hfinish : token.kind = .finish
      · rw [rounds_eq]
        simp [htoken, hfinish, resume, Outline.tail, conclude, evaluateFactors]
      · have hobserved : (rounds vocabulary input tokens left index).result.map Prod.fst =
            (Traced.observe tokens (round vocabulary input tokens left index)).bind
              (resume vocabulary input) := by
          rw [rounds_eq]
          cases hround : (round vocabulary input tokens left index).result with
          | error error => simp [Traced.observe, htoken, hfinish, hround]
          | ok read => simp [Traced.observe, htoken, hfinish, hround, ih read.1 read.2 hround]
        rw [hobserved, observe_round hdrop hfinish, ← conclude_tail hfinish]
        rfl

theorem map_fst_bind_rounds (first : Walk Quantity) :
    ((first >>= rounds vocabulary input tokens) index).result.map Prod.fst =
      (Traced.observe tokens (first index)).bind (resume vocabulary input) := by
  rw [Traced.result_stateT_bind, Traced.observe]
  cases (first index).result with
  | error error => rfl
  | ok read => exact map_fst_rounds read.1 read.2

/-- A walk behind a number comes to what the outline behind it does. -/
theorem map_fst_expression_number {number : Token} {rest : List Token}
    (htokens : tokens = number :: rest) (hnumber : number.kind.isNumber = true) :
    (expression vocabulary input tokens 0).result.map Prod.fst =
      conclude vocabulary input (some (.number number.kind.value)) (Outline.afterNumber rest) := by
  have hfirst : tokenAt input tokens 0 = .ok number := by rw [htokens]; rfl
  have hrest : tokens.drop 1 = rest := by rw [htokens]; rfl
  have hfinish : number.kind ≠ .finish := fun hkind ↦ by
    simp [hkind, TokenKind.isNumber] at hnumber
  cases hcases : rest with
  | nil =>
    have hnone : tokenAt input tokens 1 = _ := tokenAt_of_drop_nil (hrest.trans hcases)
    simp [expression, hfirst, hfinish, hnumber, hnone, Outline.afterNumber, conclude,
      evaluateFactors, Ending.error, GrammarRefusal.error]
  | cons second behind =>
    have hsecond : tokenAt input tokens 1 = .ok second :=
      tokenAt_of_drop_cons (hrest.trans hcases)
    rw [← hcases]
    by_cases hend : second.kind = .finish
    · simp [expression, hfirst, hfinish, hnumber, hsecond, hend, Outline.afterNumber, hcases,
        Outline.tail, conclude, evaluateFactors]
    · by_cases hoperator : second.kind = .times ∨ second.kind = .divide
      · have htail : Outline.afterNumber rest = Outline.tail (tokens.drop 1) := by
          rw [hrest, hcases, Outline.afterNumber, if_pos (Or.inr hoperator)]
        rw [htail]
        refine Eq.trans ?_ (map_fst_rounds (.number number.kind.value) 1)
        rcases hoperator with hkind | hkind <;>
          simp [expression, hfirst, hfinish, hnumber, hsecond, hkind]
      · have hleading : Outline.afterNumber rest = Outline.leading (tokens.drop 1) := by
          rw [hrest, hcases, Outline.afterNumber, if_neg (by simp [hend, hoperator])]
        rw [hleading, conclude_leading, ← observe_factor, ← map_fst_bind_rounds]
        simp_all [expression]

/-- The walk through an expression comes to what its outline does. -/
theorem map_fst_expression : (expression vocabulary input tokens 0).result.map Prod.fst =
    (Outline.ofTokens tokens).evaluate vocabulary input := by
  cases htokens : tokens with
  | nil =>
    simp [expression, tokenAt, Outline.ofTokens, Outline.evaluate, evaluateFactors, Ending.error,
      GrammarRefusal.error]
  | cons token rest =>
    rw [← htokens]
    have hfirst : tokenAt input tokens 0 = .ok token := by rw [htokens]; rfl
    by_cases hnumber : token.kind.isNumber = true
    · rw [map_fst_expression_number htokens hnumber, htokens]
      cases hkind : token.kind with
      | number value integer =>
        simp only [Outline.ofTokens, hkind]
        rfl
      | _ => simp [hkind, TokenKind.isNumber] at hnumber
    · by_cases hfinish : token.kind = .finish
      · have hempty : (Outline.ofTokens tokens).evaluate vocabulary input =
            .error (GrammarRefusal.error input ⟨.emptyExpression, 0⟩) := by
          rw [htokens]
          simp only [Outline.ofTokens, hfinish]
          rfl
        rw [hempty]
        simp [expression, hfirst, hfinish]
      · have hleading : (Outline.ofTokens tokens).evaluate vocabulary input =
            conclude vocabulary input none (Outline.leading (tokens.drop 0)) := by
          rw [htokens]
          cases hkind : token.kind with
          | number value integer => exact absurd (by rw [hkind]; rfl) hnumber
          | finish => exact absurd hkind hfinish
          | _ =>
            simp only [Outline.ofTokens, hkind]
            rfl
        rw [hleading, conclude_leading, ← observe_term, ← map_fst_bind_rounds]
        simp [expression, hfirst, hfinish, hnumber]

end

/-! ### The tokens of a text -/

section

variable {vocabulary : Vocabulary} {input : Text} {tokens : List Token} {index : Nat}

/-- Behind a token that is no end of input stands another one. -/
theorem Inside.succ_lt (hinside : Inside tokens index) (hclosed : Outline.Closed tokens) :
    index + 1 < tokens.length := by
  obtain ⟨token, htoken, hkind⟩ := hinside
  obtain ⟨body, final, rfl, hfinal⟩ := hclosed
  rcases Nat.lt_or_ge index body.length with hbody | hbehind
  · simpa using hbody
  · rw [List.getElem?_append_right hbehind] at htoken
    have hmem := List.mem_of_getElem? htoken
    exact absurd (List.mem_singleton.mp hmem ▸ hfinal) hkind

theorem Reaches.lt {start : Nat} (hreaches : Reaches tokens start index)
    (hclosed : Outline.Closed tokens) (hstart : start < tokens.length) : index < tokens.length := by
  rcases hreaches with rfl | ⟨hlt, hinside⟩
  · exact hstart
  · have hbehind := hinside.succ_lt hclosed
    omega

theorem Event.IsGuarded.index_lt {start : Nat} {event : Event}
    (hguarded : event.IsGuarded tokens start) (hclosed : Outline.Closed tokens)
    (hstart : start < tokens.length) : event.index < tokens.length := by
  cases event with
  | look index => exact Reaches.lt hguarded hclosed hstart
  | take index => exact Inside.lt hguarded
  | round index => exact Inside.lt hguarded

/-- What is taken under guard is no end of input. -/
theorem inside_of_mem_taken {start : Nat} {events : List Event}
    (hguarded : ∀ event ∈ events, event.IsGuarded tokens start) (hindex : index ∈ taken events) :
    Inside tokens index := by
  obtain ⟨event, hevent, htaken⟩ := List.mem_filterMap.mp hindex
  cases event with
  | take _ => exact Option.some.inj htaken ▸ hguarded _ hevent
  | _ => cases htaken

/-- A round on its own looks at tokens only, and takes those that it passes. -/
theorem round_spec (hclosed : Outline.Closed tokens) (hinside : Inside tokens index)
    (left : Quantity) :
    (∀ event ∈ (round vocabulary input tokens left index).events, event.index < tokens.length) ∧
      ∀ result next, (round vocabulary input tokens left index).result = .ok (result, next) →
        index < next ∧ next < tokens.length ∧
          taken (round vocabulary input tokens left index).events =
            List.range' index (next - index) := by
  have hround : (round vocabulary input tokens left index).Ensures _ _ :=
    round_ensures (.inl rfl) left
  obtain ⟨count, htaken, hcount⟩ := (consumes_round left).takes index
  refine ⟨fun event hevent ↦ (hround.events event hevent).index_lt hclosed hinside.lt,
    fun result next hresult ↦ ?_⟩
  obtain ⟨hlt, hreaches⟩ := hround.value _ hresult
  refine ⟨hlt, hreaches.lt hclosed hinside.lt, ?_⟩
  have hnext : next = index + count := hcount _ hresult
  rw [htaken, hnext, Nat.add_sub_cancel_left]

end

end Walk

open Walk in
/-- An expression is read through an index that stays within the tokens of its text. The walk comes
to what `parse` does. It takes the first tokens, one after another and none twice, and never the end
of input. A round of the loop over further factors fails or takes the tokens up to where the next
one begins, one at least. Rounds are fewer than tokens. -/
theorem Vocabulary.walk_spec {vocabulary : Vocabulary} {input : Text} {tokens : List Token}
    (htokens : Token.ofText input = .ok tokens) :
    (expression vocabulary input tokens 0).result.map Prod.fst = vocabulary.parse input ∧
      (∀ event ∈ (expression vocabulary input tokens 0).events, event.index < tokens.length) ∧
      (∃ count, taken (expression vocabulary input tokens 0).events = List.range count ∧
        ∀ index < count, Inside tokens index) ∧
      (∀ left index, Inside tokens index →
        (∀ event ∈ (round vocabulary input tokens left index).events,
          event.index < tokens.length) ∧
        ∀ result next, (round vocabulary input tokens left index).result = .ok (result, next) →
          index < next ∧ next < tokens.length ∧
            taken (round vocabulary input tokens left index).events =
              List.range' index (next - index)) ∧
      (begun (expression vocabulary input tokens 0).events).Pairwise (· < ·) ∧
      (∀ index ∈ begun (expression vocabulary input tokens 0).events, Inside tokens index) ∧
      (begun (expression vocabulary input tokens 0).events).length < tokens.length := by
  obtain ⟨body, final, hbody, hfinal, _⟩ := Token.eq_append_finish_of_ofText htokens
  have hclosed : Outline.Closed tokens := ⟨body, final, hbody, hfinal⟩
  have hsome : 0 < tokens.length := List.length_pos_iff.mpr hclosed.ne_nil
  have hguarded : (expression vocabulary input tokens 0).Ensures _ _ :=
    expression_ensures (.inl rfl)
  have hproceeds : Proceeds tokens (expression vocabulary input tokens) := proceeds_expression
  obtain ⟨count, htaken, _⟩ := hproceeds.takes 0
  obtain ⟨hincreasing, hinside⟩ := hproceeds.begins 0
  refine ⟨?_, fun event hevent ↦ (hguarded.events event hevent).index_lt hclosed hsome,
    ⟨count, by rw [htaken, List.range_eq_range'], fun index hindex ↦ ?_⟩,
    fun left index hindex ↦ round_spec hclosed hindex left, hincreasing,
    fun index hindex ↦ (hinside index hindex).2, ?_⟩
  · rw [map_fst_expression, parse, htokens]
    rfl
  · refine inside_of_mem_taken hguarded.events ?_
    rw [htaken]
    exact List.mem_range'_1.mpr (by omega)
  · have hlength : (begun (expression vocabulary input tokens 0).events).length ≤
        tokens.length - 1 :=
      Traced.length_le_of_increasing hincreasing fun index hindex ↦
        Nat.lt_sub_of_add_lt ((hinside index hindex).2.succ_lt hclosed)
    omega

open Walk in
/-- Behind `m*` stands nothing. The walk takes the symbol and, in a round of the loop, the operator;
it fails at the end of input, which it looks at but does not take. -/
theorem Vocabulary.walk_spec_dangling :
    ∃ tokens, Token.ofText [109, 42] = .ok tokens ∧ tokens.length = 3 ∧
      (∀ event ∈ (expression metric [109, 42] tokens 0).events, event.index < 3) ∧
      taken (expression metric [109, 42] tokens 0).events = [0, 1] ∧
      begun (expression metric [109, 42] tokens 0).events = [1] ∧
      Event.look 2 ∈ (expression metric [109, 42] tokens 0).events := by
  have htokens : Token.ofText [109, 42] =
      .ok [⟨.symbol, [109], 0, false⟩, ⟨.times, [42], 1, false⟩, ⟨.finish, [], 2, false⟩] := by
    have hcodes : Utf8.decodeAll [109, 42] = ([109, 42], none) :=
      @Utf8.decodeAll_encodeAll [109, 42] (by decide)
    rw [Token.ofText, hcodes]
    exact Fallible.mapError_eq_ok_iff.mpr (by cbv)
  obtain ⟨_, hbound, _⟩ := @walk_spec metric _ _ htokens
  exact ⟨_, htokens, rfl, hbound, by decide +kernel, by decide +kernel, by decide +kernel⟩

end Metrology
