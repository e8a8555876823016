import Metrology.Expression.Evaluation
import Metrology.Proofs.Expression.Refusals
import Metrology.Proofs.Traced

/-!
# Walking through tokens by index

`Vocabulary.parse` takes lists of tokens apart. A walk reads the same tokens by index: it looks at
the token at its index, or takes it and goes on to the next one, and reports either. It looks only
where it started or behind a token that is no end of input, and takes no end of input
(`Walk.expression_ensures`). It takes the tokens from its start on, each of them once, and every
round of its loop over further factors begins behind the one before (`Walk.proceeds_expression`).
-/

set_option autoImplicit false
set_option relaxedAutoImplicit false

namespace Metrology

/-- The error of a refusal in an expression. -/
def GrammarRefusal.error (input : Text) (refusal : GrammarRefusal) : Error :=
  .expression ⟨.grammar refusal.fault, input, refusal.position⟩

namespace TokenKind

/-- A number of any kind. -/
def isNumber : TokenKind → Bool
  | number _ _ => true
  | _ => false

/-- An exponent in superscripts. -/
def isSuperscript : TokenKind → Bool
  | superscript _ => true
  | _ => false

/-- The value of a number, and zero for other kinds. -/
def value : TokenKind → Float
  | number value _ => value
  | _ => 0.0

/-- The integer that a number is, if any. -/
def integer? : TokenKind → Option Int
  | number _ integer => integer
  | _ => none

/-- The exponent that superscripts write, and zero for other kinds. -/
def exponent : TokenKind → Int
  | superscript exponent => exponent
  | _ => 0

end TokenKind

namespace Walk

/-- What a walk does. -/
inductive Event where
  /-- The token at an index is looked at. -/
  | look (index : Nat)
  /-- The token at an index is taken, and the walk goes on behind it. -/
  | take (index : Nat)
  /-- A round of the loop over further factors begins at an index. -/
  | round (index : Nat)
  deriving DecidableEq

end Walk

/-- A walk, from an index on. -/
abbrev Walk := StateT Nat (Traced Walk.Event Error)

namespace Walk

/-! ### The walk through an expression -/

section

variable (vocabulary : Vocabulary) (input : Text) (tokens : List Token) {α : Type}

/-- The token at an index. -/
def tokenAt (index : Nat) : Except Error Token :=
  match tokens[index]? with
  | some token => .ok token
  | none => .error (Outline.unterminated.error input)

/-- Looks at the token at the index. -/
def peek : Walk Token := fun index ↦
  ⟨[.look index], (tokenAt input tokens index).map (·, index)⟩

/-- Takes the token at the index. Only here does the index move. -/
def next : Walk Token := fun index ↦
  ⟨[.take index], (tokenAt input tokens index).map (·, index + 1)⟩

/-- Looks whether the token at the index passes a test. -/
def sees (test : TokenKind → Bool) : Walk Bool := do
  let token ← peek input tokens
  pure (test token.kind)

/-- A result that needs no tokens. -/
def lift (result : Except Error α) : Walk α := fun index ↦
  .ofExcept (result.map (·, index))

/-- A refusal. -/
def refuse (refusal : GrammarRefusal) : Walk α :=
  lift (.error (refusal.error input))

/-- The refusal of the token at the index. -/
def unexpected (expectation : Expectation) : Walk α := do
  let token ← peek input tokens
  refuse input (Outline.unexpected expectation token)

/-- The exponent behind a caret. -/
def caretExponent : Walk Int := do
  if ← sees input tokens TokenKind.isNumber then
    let number ← peek input tokens
    match number.kind.integer? with
    | none => unexpected input tokens .integerExponent
    | some exponent =>
      let number ← next input tokens
      if Lexer.exponentLimit < exponent.natAbs then
        refuse input ⟨.exponentOutOfRange, number.position⟩
      else pure exponent
  else unexpected input tokens .integerExponent

/-- The exponent that a caret or superscripts at the index begin. -/
def writtenExponent : Walk Int := do
  if ← sees input tokens TokenKind.isSuperscript then
    let raised ← peek input tokens
    if raised.spaced then
      let detached ← peek input tokens
      refuse input ⟨.detachedSuperscript, detached.position⟩
    else
      let raised ← next input tokens
      pure raised.kind.exponent
  else
    let _caret ← next input tokens
    caretExponent input tokens

/-- The exponent that may follow a symbol. -/
def exponent : Walk Int := do
  if ← sees input tokens (· = .caret) then writtenExponent input tokens
  else if ← sees input tokens TokenKind.isSuperscript then writtenExponent input tokens
  else pure 1

/-- The quantity of a symbol with its exponent. -/
def term : Walk Quantity := do
  if ← sees input tokens (· = .symbol) then
    let symbol ← next input tokens
    let reading ← lift (Occurrence.resolve vocabulary input ⟨symbol.text, symbol.position⟩)
    let exponent ← exponent input tokens
    lift (reading.power exponent)
  else unexpected input tokens .unitSymbol

/-- What stands left of a term times the term, or over it. -/
def factor (inverted : Bool) (left : Quantity) : Walk Quantity := do
  let right ← term vocabulary input tokens
  lift ((if inverted then left.div right else left.mul right).mapError .dimension)

/-- A round of the loop over further factors. -/
def round (left : Quantity) : Walk Quantity := do
  let token ← peek input tokens
  if token.kind = .times then
    let _operator ← next input tokens
    factor vocabulary input tokens false left
  else if token.kind = .divide then
    let _operator ← next input tokens
    factor vocabulary input tokens true left
  else if token.kind = .symbol ∧ token.spaced then factor vocabulary input tokens false left
  else unexpected input tokens .operatorOrEnd

end

/-! ### Where a walk looks -/

section

variable {vocabulary : Vocabulary} {input : Text} {tokens : List Token} {α β : Type}

/-- A token other than an end of input stands at an index. -/
def Inside (tokens : List Token) (index : Nat) : Prop :=
  ∃ token, tokens[index]? = some token ∧ token.kind ≠ .finish

/-- The index where a walk started, or one behind a token that is no end of input. -/
def Reaches (tokens : List Token) (start index : Nat) : Prop :=
  start = index ∨ start < index ∧ Inside tokens (index - 1)

/-- A walk looks where it comes to, and takes no end of input. -/
def Event.IsGuarded (tokens : List Token) (start : Nat) : Event → Prop
  | look index => Reaches tokens start index
  | take index => Inside tokens index
  | round index => Inside tokens index

theorem Inside.lt {index : Nat} (hinside : Inside tokens index) : index < tokens.length := by
  obtain ⟨token, htoken, _⟩ := hinside
  exact (List.getElem?_eq_some_iff.mp htoken).1

theorem Reaches.le {start index : Nat} (hreaches : Reaches tokens start index) : start ≤ index :=
  hreaches.elim Nat.le_of_eq fun hbehind ↦ Nat.le_of_lt hbehind.1

theorem Reaches.succ {start index : Nat} (hreaches : Reaches tokens start index)
    (hinside : Inside tokens index) : Reaches tokens start (index + 1) :=
  .inr ⟨Nat.lt_succ_of_le hreaches.le, hinside⟩

theorem tokenAt_eq_ok {index : Nat} {token : Token} (h : tokenAt input tokens index = .ok token) :
    tokens[index]? = some token := by
  unfold tokenAt at h
  split at h
  · next heq => rw [heq, Except.ok.inj h]
  · cases h

section

variable {start index : Nat}

theorem peek_ensures (hreaches : Reaches tokens start index) :
    (peek input tokens index).Ensures (Event.IsGuarded tokens start) fun read ↦
      read.2 = index ∧ tokens[index]? = some read.1 := by
  refine ⟨fun event hevent ↦ ?_, fun read hread ↦ ?_⟩
  · rw [List.mem_singleton.mp hevent]
    exact hreaches
  · obtain ⟨token, htoken, rfl⟩ := Fallible.map_eq_ok_iff.mp hread
    exact ⟨rfl, tokenAt_eq_ok htoken⟩

theorem next_ensures (hinside : Inside tokens index) :
    (next input tokens index).Ensures (Event.IsGuarded tokens start) fun read ↦
      read.2 = index + 1 := by
  refine ⟨fun event hevent ↦ ?_, fun read hread ↦ ?_⟩
  · rw [List.mem_singleton.mp hevent]
    exact hinside
  · obtain ⟨token, _, rfl⟩ := Fallible.map_eq_ok_iff.mp hread
    rfl

/-- A token that answers a test as no end of input does is none. -/
theorem sees_ensures (hreaches : Reaches tokens start index) (test : TokenKind → Bool) :
    (sees input tokens test index).Ensures (Event.IsGuarded tokens start) fun read ↦
      read.2 = index ∧ (read.1 ≠ test .finish → Inside tokens index) := by
  refine Traced.ensures_bind (peek_ensures hreaches) fun token _ ⟨hnext, htoken⟩ ↦ ?_
  exact Traced.ensures_pure ⟨hnext, fun hother ↦ ⟨token, htoken, fun hkind ↦ hother (hkind ▸ rfl)⟩⟩

theorem lift_ensures (result : Except Error α) :
    (lift result index).Ensures (Event.IsGuarded tokens start) fun read ↦ read.2 = index := by
  refine Traced.ensures_ofExcept fun read hread ↦ ?_
  obtain ⟨value, _, rfl⟩ := Fallible.map_eq_ok_iff.mp hread
  rfl

theorem refuse_ensures {required : α × Nat → Prop} (refusal : GrammarRefusal) :
    (refuse input refusal index).Ensures (Event.IsGuarded tokens start) required :=
  Traced.ensures_error _

theorem unexpected_ensures {required : α × Nat → Prop} (hreaches : Reaches tokens start index)
    (expectation : Expectation) :
    (unexpected input tokens expectation index).Ensures (Event.IsGuarded tokens start) required :=
  Traced.ensures_bind (peek_ensures hreaches) fun _ _ _ ↦ refuse_ensures _

theorem caretExponent_ensures (hreaches : Reaches tokens start index) :
    (caretExponent input tokens index).Ensures (Event.IsGuarded tokens start) fun read ↦
      index < read.2 ∧ Reaches tokens start read.2 := by
  refine Traced.ensures_bind (sees_ensures hreaches _) ?_
  rintro seen _ ⟨rfl, hnumber⟩
  split
  · next hseen =>
    have hinside := hnumber (by simp [hseen, TokenKind.isNumber])
    refine Traced.ensures_bind (peek_ensures hreaches) ?_
    rintro number _ ⟨rfl, -⟩
    cases number.kind.integer? with
    | none => exact unexpected_ensures hreaches _
    | some exponent =>
      refine Traced.ensures_bind (next_ensures hinside) ?_
      rintro token _ rfl
      split
      · exact refuse_ensures _
      · exact Traced.ensures_pure ⟨Nat.lt_succ_self _, hreaches.succ hinside⟩
  · exact unexpected_ensures hreaches _

theorem writtenExponent_ensures (hreaches : Reaches tokens start index)
    (hinside : Inside tokens index) :
    (writtenExponent input tokens index).Ensures (Event.IsGuarded tokens start) fun read ↦
      index < read.2 ∧ Reaches tokens start read.2 := by
  have hbehind := hreaches.succ hinside
  refine Traced.ensures_bind (sees_ensures hreaches _) ?_
  rintro raised _ ⟨rfl, -⟩
  split
  · refine Traced.ensures_bind (peek_ensures hreaches) ?_
    rintro token _ ⟨rfl, -⟩
    split
    · exact Traced.ensures_bind (peek_ensures hreaches) fun _ _ _ ↦ refuse_ensures _
    · refine Traced.ensures_bind (next_ensures hinside) ?_
      rintro token _ rfl
      exact Traced.ensures_pure ⟨Nat.lt_succ_self _, hbehind⟩
  · refine Traced.ensures_bind (next_ensures hinside) ?_
    rintro caret _ rfl
    exact (caretExponent_ensures hbehind).mono
      fun _ ⟨hlt, hnext⟩ ↦ ⟨Nat.lt_of_succ_lt hlt, hnext⟩

theorem exponent_ensures (hreaches : Reaches tokens start index) :
    (exponent input tokens index).Ensures (Event.IsGuarded tokens start) fun read ↦
      index ≤ read.2 ∧ Reaches tokens start read.2 := by
  have hwritten : Inside tokens index →
      (writtenExponent input tokens index).Ensures (Event.IsGuarded tokens start) fun read ↦
        index ≤ read.2 ∧ Reaches tokens start read.2 := fun hinside ↦
    (writtenExponent_ensures hreaches hinside).mono
      fun _ ⟨hlt, hnext⟩ ↦ ⟨Nat.le_of_lt hlt, hnext⟩
  refine Traced.ensures_bind (sees_ensures hreaches _) ?_
  rintro seen _ ⟨rfl, hcaret⟩
  split
  · next hseen => exact hwritten (hcaret (by simp [hseen]))
  · refine Traced.ensures_bind (sees_ensures hreaches _) ?_
    rintro seen _ ⟨rfl, hraised⟩
    split
    · next hseen => exact hwritten (hraised (by simp [hseen, TokenKind.isSuperscript]))
    · exact Traced.ensures_pure ⟨Nat.le_refl _, hreaches⟩

theorem term_ensures (hreaches : Reaches tokens start index) :
    (term vocabulary input tokens index).Ensures (Event.IsGuarded tokens start) fun read ↦
      index < read.2 ∧ Reaches tokens start read.2 := by
  refine Traced.ensures_bind (sees_ensures hreaches _) ?_
  rintro seen _ ⟨rfl, hsymbol⟩
  split
  · next hseen =>
    have hinside := hsymbol (by simp [hseen])
    refine Traced.ensures_bind (next_ensures hinside) ?_
    rintro token _ rfl
    refine Traced.ensures_bind (lift_ensures _) ?_
    rintro reading _ rfl
    refine Traced.ensures_bind (exponent_ensures (hreaches.succ hinside)) ?_
    rintro exponent after ⟨hle, hafter⟩
    refine (lift_ensures _).mono ?_
    rintro ⟨quantity, _⟩ rfl
    exact ⟨hle, hafter⟩
  · exact unexpected_ensures hreaches _

theorem factor_ensures (hreaches : Reaches tokens start index) (inverted : Bool)
    (left : Quantity) :
    (factor vocabulary input tokens inverted left index).Ensures (Event.IsGuarded tokens start)
      fun read ↦ index < read.2 ∧ Reaches tokens start read.2 := by
  refine Traced.ensures_bind (term_ensures hreaches) ?_
  rintro right after hafter
  refine (lift_ensures _).mono ?_
  rintro ⟨quantity, _⟩ rfl
  exact hafter

/-- A round takes a token or fails. -/
theorem round_ensures (hreaches : Reaches tokens start index) (left : Quantity) :
    (round vocabulary input tokens left index).Ensures (Event.IsGuarded tokens start) fun read ↦
      index < read.2 ∧ Reaches tokens start read.2 := by
  have hoperator : Inside tokens index → ∀ inverted,
      ((next input tokens >>= fun _ ↦ factor vocabulary input tokens inverted left) index).Ensures
        (Event.IsGuarded tokens start) fun read ↦ index < read.2 ∧ Reaches tokens start read.2 := by
    intro hinside inverted
    refine Traced.ensures_bind (next_ensures hinside) ?_
    rintro operator _ rfl
    exact (factor_ensures (hreaches.succ hinside) inverted left).mono
      fun _ ⟨hlt, hnext⟩ ↦ ⟨Nat.lt_of_succ_lt hlt, hnext⟩
  refine Traced.ensures_bind (peek_ensures hreaches) ?_
  rintro token _ ⟨rfl, htoken⟩
  split
  · next hkind => exact hoperator ⟨token, htoken, by simp [hkind]⟩ false
  split
  · next hkind => exact hoperator ⟨token, htoken, by simp [hkind]⟩ true
  split
  · exact factor_ensures hreaches false left
  · exact unexpected_ensures hreaches _

end

/-- A round that comes to a value brings the walk nearer to the end of the tokens. -/
theorem round_advances {left result : Quantity} {index next : Nat}
    (hround : (round vocabulary input tokens left index).result = .ok (result, next)) :
    tokens.length - next < tokens.length - index := by
  obtain ⟨hlt, hnext⟩ := (round_ensures (.inl rfl) left).value _ hround
  rcases hnext with rfl | ⟨_, hinside⟩
  · exact absurd hlt (Nat.lt_irrefl _)
  · have hbound := hinside.lt
    omega

end

/-! ### The loop -/

section

variable (vocabulary : Vocabulary) (input : Text) (tokens : List Token)

/-- The loop over further factors, up to the end of the input. -/
def rounds (left : Quantity) (index : Nat) : Traced Event Error (Quantity × Nat) := do
  let finished ← sees input tokens (· = .finish) index
  if finished.1 then pure (left, index)
  else
    Traced.report (.round index)
    let ⟨⟨result, next⟩, _hround⟩ ← (round vocabulary input tokens left index).attach
    rounds result next
  termination_by tokens.length - index
  decreasing_by exact round_advances _hround

/-- The walk through an expression. -/
def expression : Walk Quantity := do
  if ← sees input tokens (· = .finish) then refuse input ⟨.emptyExpression, 0⟩
  else if ← sees input tokens TokenKind.isNumber then
    let number ← next input tokens
    let left := Quantity.number number.kind.value
    if ← sees input tokens (· = .finish) then pure left
    else if ← sees input tokens (· = .times) then rounds vocabulary input tokens left
    else if ← sees input tokens (· = .divide) then rounds vocabulary input tokens left
    else
      let result ← factor vocabulary input tokens false left
      rounds vocabulary input tokens result
  else
    let left ← term vocabulary input tokens
    rounds vocabulary input tokens left

end

section

variable {vocabulary : Vocabulary} {input : Text} {tokens : List Token} {start index : Nat}

theorem rounds_eq (left : Quantity) (index : Nat) :
    rounds vocabulary input tokens left index =
      (sees input tokens (· = .finish) index >>= fun finished ↦
        if finished.1 then pure (left, index)
        else Traced.report (.round index) >>= fun _ ↦
          round vocabulary input tokens left index >>= fun read ↦
            rounds vocabulary input tokens read.1 read.2) := by
  rw [rounds]
  simp only [← Traced.attach_bind (round vocabulary input tokens left index)]

/-- What holds before a round when it holds behind it, holds wherever the loop starts. -/
theorem rounds_induction {motive : Quantity → Nat → Prop}
    (hround : ∀ left index, (∀ result next,
      (round vocabulary input tokens left index).result = .ok (result, next) →
        motive result next) → motive left index) (left : Quantity) (index : Nat) :
    motive left index := by
  induction hmeasure : tokens.length - index using Nat.strongRecOn generalizing left index with
  | ind measure ih =>
    subst hmeasure
    exact hround left index fun result next hresult ↦
      ih _ (round_advances hresult) result next rfl

theorem rounds_ensures (left : Quantity) (index : Nat) (hreaches : Reaches tokens start index) :
    (rounds vocabulary input tokens left index).Ensures (Event.IsGuarded tokens start)
      fun _ ↦ True := by
  induction left, index using @rounds_induction vocabulary input tokens with
  | hround left index ih =>
    rw [rounds_eq]
    refine (sees_ensures hreaches _).bind fun finished _ ⟨_, hopen⟩ ↦ ?_
    split
    · exact Traced.ensures_pure trivial
    · next hfinished =>
      have hround : (Traced.report (.round index) : Traced Event Error Unit).Ensures
          (Event.IsGuarded tokens start) fun _ ↦ True :=
        Traced.ensures_report (hopen (by simpa using hfinished))
      refine hround.bind fun _ _ _ ↦ ?_
      exact (round_ensures hreaches left).bind fun read hread hnext ↦ ih _ _ hread hnext.2

theorem expression_ensures (hreaches : Reaches tokens start index) :
    (expression vocabulary input tokens index).Ensures (Event.IsGuarded tokens start)
      fun _ ↦ True := by
  refine Traced.ensures_bind (sees_ensures hreaches _) ?_
  rintro finished _ ⟨rfl, -⟩
  split
  · exact refuse_ensures _
  refine Traced.ensures_bind (sees_ensures hreaches _) ?_
  rintro seen _ ⟨rfl, hnumber⟩
  split
  · next hseen =>
    have hinside := hnumber (by simp [hseen, TokenKind.isNumber])
    have hbehind := hreaches.succ hinside
    refine Traced.ensures_bind (next_ensures hinside) ?_
    rintro number _ rfl
    refine Traced.ensures_bind (sees_ensures hbehind _) ?_
    rintro finished _ ⟨rfl, -⟩
    split
    · exact Traced.ensures_pure trivial
    refine Traced.ensures_bind (sees_ensures hbehind _) ?_
    rintro times _ ⟨rfl, -⟩
    split
    · exact rounds_ensures _ _ hbehind
    refine Traced.ensures_bind (sees_ensures hbehind _) ?_
    rintro divide _ ⟨rfl, -⟩
    split
    · exact rounds_ensures _ _ hbehind
    exact Traced.ensures_bind (factor_ensures hbehind _ _)
      fun _ _ hnext ↦ rounds_ensures _ _ hnext.2
  · exact Traced.ensures_bind (term_ensures hreaches) fun _ _ hnext ↦ rounds_ensures _ _ hnext.2

end

/-! ### What a walk takes -/

/-- The index that an event is about. -/
def Event.index : Event → Nat
  | look index => index
  | take index => index
  | round index => index

def Event.taken? : Event → Option Nat
  | take index => some index
  | _ => none

def Event.begun? : Event → Option Nat
  | round index => some index
  | _ => none

section

variable {vocabulary : Vocabulary} {input : Text} {tokens : List Token} {α β : Type} {index : Nat}

/-- The indices of the tokens that are taken. -/
def taken (events : List Event) : List Nat :=
  events.filterMap Event.taken?

/-- The indices where rounds begin. -/
def begun (events : List Event) : List Nat :=
  events.filterMap Event.begun?

/-- The tokens from an index on are taken, each of them once, up to where the run goes on. -/
def TakesFrom (index : Nat) (run : Traced Event Error (α × Nat)) : Prop :=
  ∃ count, taken run.events = List.range' index count ∧
    ∀ read, run.result = .ok read → read.2 = index + count

theorem TakesFrom.bind {first : Traced Event Error (α × Nat)}
    {behind : α × Nat → Traced Event Error (β × Nat)} (hfirst : TakesFrom index first)
    (hbehind : ∀ read, first.result = .ok read → TakesFrom read.2 (behind read)) :
    TakesFrom index (first >>= behind) := by
  obtain ⟨count, htaken, hread⟩ := hfirst
  cases hresult : first.result with
  | error error =>
    rw [Traced.bind_of_error hresult]
    exact ⟨count, htaken, by simp⟩
  | ok read =>
    obtain ⟨more, hmore, hend⟩ := hbehind read hresult
    rw [hread read hresult] at hmore hend
    rw [Traced.bind_of_ok hresult]
    refine ⟨count + more, ?_, fun last hlast ↦ ?_⟩
    · rw [taken, List.filterMap_append, ← taken, ← taken, htaken, hmore, List.range'_append_1]
    · rw [hend last hlast, Nat.add_assoc]

/-- A part of the walk that begins no rounds and takes the tokens that it passes. -/
structure Consumes (walk : Walk α) : Prop where
  takes : ∀ index, TakesFrom index (walk index)
  quiet : ∀ index, begun (walk index).events = []

theorem Consumes.bind {first : Walk α} {behind : α → Walk β} (hfirst : Consumes first)
    (hbehind : ∀ value, Consumes (behind value)) : Consumes (first >>= behind) := by
  refine ⟨fun index ↦ ?_, fun index ↦ ?_⟩
  · exact TakesFrom.bind (hfirst.takes index) fun read _ ↦ (hbehind read.1).takes read.2
  · show begun (first index >>= fun read ↦ behind read.1 read.2).events = []
    cases hresult : (first index).result with
    | error error =>
      rw [Traced.bind_of_error hresult]
      exact hfirst.quiet index
    | ok read =>
      rw [Traced.bind_of_ok hresult, begun, List.filterMap_append, ← begun, ← begun,
        hfirst.quiet index, (hbehind read.1).quiet read.2, List.append_nil]

theorem consumes_lift (result : Except Error α) : Consumes (lift result) := by
  refine ⟨fun index ↦ ⟨0, rfl, fun read hread ↦ ?_⟩, fun _ ↦ rfl⟩
  obtain ⟨value, _, rfl⟩ := Fallible.map_eq_ok_iff.mp hread
  rfl

theorem consumes_pure (value : α) : Consumes (pure value) :=
  consumes_lift (.ok value)

theorem consumes_refuse (refusal : GrammarRefusal) : Consumes (refuse input refusal : Walk α) :=
  consumes_lift _

theorem consumes_peek : Consumes (peek input tokens) := by
  refine ⟨fun index ↦ ⟨0, rfl, fun read hread ↦ ?_⟩, fun _ ↦ rfl⟩
  obtain ⟨token, _, rfl⟩ := Fallible.map_eq_ok_iff.mp hread
  rfl

theorem consumes_next : Consumes (next input tokens) := by
  refine ⟨fun index ↦ ⟨1, rfl, fun read hread ↦ ?_⟩, fun _ ↦ rfl⟩
  obtain ⟨token, _, rfl⟩ := Fallible.map_eq_ok_iff.mp hread
  rfl

theorem consumes_sees (test : TokenKind → Bool) : Consumes (sees input tokens test) :=
  consumes_peek.bind fun _ ↦ consumes_pure _

theorem consumes_unexpected (expectation : Expectation) :
    Consumes (unexpected input tokens expectation : Walk α) :=
  consumes_peek.bind fun _ ↦ consumes_refuse _

theorem consumes_caretExponent : Consumes (caretExponent input tokens) := by
  refine (consumes_sees _).bind fun number ↦ ?_
  split
  · refine consumes_peek.bind fun token ↦ ?_
    cases token.kind.integer? with
    | none => exact consumes_unexpected _
    | some exponent =>
      refine consumes_next.bind fun _ ↦ ?_
      split
      · exact consumes_refuse _
      · exact consumes_pure _
  · exact consumes_unexpected _

theorem consumes_writtenExponent : Consumes (writtenExponent input tokens) := by
  refine (consumes_sees _).bind fun raised ↦ ?_
  split
  · refine consumes_peek.bind fun token ↦ ?_
    split
    · exact consumes_peek.bind fun _ ↦ consumes_refuse _
    · exact consumes_next.bind fun _ ↦ consumes_pure _
  · exact consumes_next.bind fun _ ↦ consumes_caretExponent

theorem consumes_exponent : Consumes (exponent input tokens) := by
  refine (consumes_sees _).bind fun caret ↦ ?_
  split
  · exact consumes_writtenExponent
  · refine (consumes_sees _).bind fun raised ↦ ?_
    split
    · exact consumes_writtenExponent
    · exact consumes_pure _

theorem consumes_term : Consumes (term vocabulary input tokens) := by
  refine (consumes_sees _).bind fun symbol ↦ ?_
  split
  · exact consumes_next.bind fun _ ↦ (consumes_lift _).bind fun _ ↦
      consumes_exponent.bind fun _ ↦ consumes_lift _
  · exact consumes_unexpected _

theorem consumes_factor (inverted : Bool) (left : Quantity) :
    Consumes (factor vocabulary input tokens inverted left) :=
  consumes_term.bind fun _ ↦ consumes_lift _

theorem consumes_round (left : Quantity) : Consumes (round vocabulary input tokens left) := by
  refine consumes_peek.bind fun token ↦ ?_
  split
  · exact consumes_next.bind fun _ ↦ consumes_factor _ _
  split
  · exact consumes_next.bind fun _ ↦ consumes_factor _ _
  split
  · exact consumes_factor _ _
  · exact consumes_unexpected _

/-! ### Where rounds begin -/

/-- Rounds begin one behind the other, from an index on. -/
structure Begins (tokens : List Token) (index : Nat) (run : Traced Event Error (α × Nat)) :
    Prop where
  increasing : (begun run.events).Pairwise (· < ·)
  inside : ∀ start ∈ begun run.events, index ≤ start ∧ Inside tokens start

theorem Begins.of_nil {run : Traced Event Error (α × Nat)} (hquiet : begun run.events = []) :
    Begins tokens index run :=
  ⟨by simp [hquiet], by simp [hquiet]⟩

theorem Begins.mono {earlier : Nat} {run : Traced Event Error (α × Nat)}
    (hrun : Begins tokens index run) (hle : earlier ≤ index) : Begins tokens earlier run :=
  ⟨hrun.increasing, fun start hstart ↦
    ⟨Nat.le_trans hle (hrun.inside start hstart).1, (hrun.inside start hstart).2⟩⟩

theorem Begins.bind {first : Traced Event Error (α × Nat)}
    {behind : α × Nat → Traced Event Error (β × Nat)} (hquiet : begun first.events = [])
    (hbehind : ∀ read, first.result = .ok read → Begins tokens index (behind read)) :
    Begins tokens index (first >>= behind) := by
  cases hresult : first.result with
  | error error =>
    rw [Traced.bind_of_error hresult]
    exact .of_nil hquiet
  | ok read =>
    obtain ⟨hincreasing, hinside⟩ := hbehind read hresult
    have hevents : begun (first.events ++ (behind read).events) = begun (behind read).events := by
      rw [begun, List.filterMap_append, ← begun, hquiet]
      rfl
    rw [Traced.bind_of_ok hresult]
    exact ⟨hevents ▸ hincreasing, hevents ▸ hinside⟩

theorem Begins.report {run : Traced Event Error (α × Nat)} (hinside : Inside tokens index)
    (hrun : Begins tokens (index + 1) run) :
    Begins tokens index (Traced.report (.round index) >>= fun _ ↦ run) := by
  refine ⟨List.pairwise_cons.mpr ⟨fun start hstart ↦ (hrun.inside start hstart).1,
    hrun.increasing⟩, fun start hstart ↦ ?_⟩
  rcases List.mem_cons.mp hstart with rfl | hlater
  · exact ⟨Nat.le_refl _, hinside⟩
  · exact (hrun.mono (Nat.le_succ index)).inside start hlater

/-- A part of the walk that takes the tokens that it passes and begins rounds one behind the
other. -/
structure Proceeds (tokens : List Token) (walk : Walk α) : Prop where
  takes : ∀ index, TakesFrom index (walk index)
  begins : ∀ index, Begins tokens index (walk index)

theorem Consumes.proceeds {walk : Walk α} (hwalk : Consumes walk) : Proceeds tokens walk :=
  ⟨hwalk.takes, fun index ↦ .of_nil (hwalk.quiet index)⟩

theorem Consumes.bind_proceeds {first : Walk α} {behind : α → Walk β} (hfirst : Consumes first)
    (hbehind : ∀ value, Proceeds tokens (behind value)) : Proceeds tokens (first >>= behind) := by
  refine ⟨fun index ↦ ?_, fun index ↦ .bind (hfirst.quiet index) fun read hread ↦ ?_⟩
  · exact TakesFrom.bind (hfirst.takes index) fun read _ ↦ (hbehind read.1).takes read.2
  · obtain ⟨count, _, hnext⟩ := hfirst.takes index
    exact ((hbehind read.1).begins read.2).mono (hnext read hread ▸ Nat.le_add_right index count)

theorem TakesFrom.report {run : Traced Event Error (α × Nat)} {event : Event}
    (hevent : event.taken? = none) (hrun : TakesFrom index run) :
    TakesFrom index (Traced.report event >>= fun _ ↦ run) := by
  obtain ⟨count, htaken, hread⟩ := hrun
  refine ⟨count, ?_, hread⟩
  rw [← htaken]
  exact List.filterMap_cons_none hevent

theorem takesFrom_rounds (left : Quantity) (index : Nat) :
    TakesFrom index (rounds vocabulary input tokens left index) := by
  induction left, index using @rounds_induction vocabulary input tokens with
  | hround left index ih =>
    rw [rounds_eq]
    refine ((consumes_sees _).takes index).bind fun finished hfinished ↦ ?_
    rw [((sees_ensures (.inl rfl) _).value _ hfinished).1]
    split
    · exact (consumes_pure left).takes index
    · exact .report rfl (((consumes_round left).takes index).bind fun read hread ↦ ih _ _ hread)

theorem begins_rounds (left : Quantity) (index : Nat) :
    Begins tokens index (rounds vocabulary input tokens left index) := by
  induction left, index using @rounds_induction vocabulary input tokens with
  | hround left index ih =>
    rw [rounds_eq]
    refine .bind ((consumes_sees _).quiet index) fun finished hfinished ↦ ?_
    split
    · exact .of_nil rfl
    · next hopen =>
      have hseen := (sees_ensures (.inl rfl) _).value _ hfinished
      refine .report (hseen.2 (by simpa using hopen)) ?_
      refine .bind ((consumes_round left).quiet index) fun read hread ↦ ?_
      have hadvance := (round_ensures (.inl rfl) left).value _ hread
      exact (ih _ _ hread).mono hadvance.1

theorem proceeds_rounds (left : Quantity) :
    Proceeds tokens (rounds vocabulary input tokens left) :=
  ⟨takesFrom_rounds left, begins_rounds left⟩

theorem proceeds_expression : Proceeds tokens (expression vocabulary input tokens) := by
  refine (consumes_sees _).bind_proceeds fun finished ↦ ?_
  split
  · exact (consumes_refuse _).proceeds
  refine (consumes_sees _).bind_proceeds fun number ↦ ?_
  split
  · refine consumes_next.bind_proceeds fun number ↦ ?_
    refine (consumes_sees _).bind_proceeds fun finished ↦ ?_
    split
    · exact (consumes_pure _).proceeds
    refine (consumes_sees _).bind_proceeds fun times ↦ ?_
    split
    · exact proceeds_rounds _
    refine (consumes_sees _).bind_proceeds fun divide ↦ ?_
    split
    · exact proceeds_rounds _
    exact (consumes_factor _ _).bind_proceeds proceeds_rounds
  · exact consumes_term.bind_proceeds proceeds_rounds

end

end Walk

end Metrology
