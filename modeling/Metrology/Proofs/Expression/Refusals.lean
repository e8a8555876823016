import Metrology.Proofs.Expression.Grammar
import Metrology.Proofs.Expression.Layout

/-!
# Where expressions are refused

A text without tokens is refused at a byte offset of it, and what the fault quotes stands there
(`Token.ofText_eq_error`). Tokens that are no expression are refused at one of them, and all symbols
of their outline are among them (`Outline.accountsFor_ofTokens`). The reader of outlines never comes
behind the last token: it takes no end of input, so what it leaves still ends with one.
-/

set_option autoImplicit false
set_option relaxedAutoImplicit false

namespace Metrology

open Fallible

/-- A part stands in a text at a byte offset. -/
def Text.HoldsAt (text part : Text) (position : Nat) : Prop :=
  ∃ before after, text = before ++ (part ++ after) ∧ before.length = position

theorem Text.HoldsAt.position_le {text part : Text} {position : Nat}
    (hholds : text.HoldsAt part position) : position ≤ text.length := by
  obtain ⟨before, after, rfl, rfl⟩ := hholds
  rw [List.length_append]
  exact Nat.le_add_right _ _

/-! ### Lexical faults -/

/-- The part of a text that a fault quotes. -/
def LexicalFault.quoted? : LexicalFault → Option Text
  | malformedNumber text => some text
  | numberOutOfRange text => some text
  | _ => none

namespace Lexer

/-- A fault lies in code points, a number of bytes behind their start. What it quotes stands
there. -/
def LiesIn (codes : List Nat) (fault : LexicalFault) (offset : Nat) : Prop :=
  ∃ taken left, codes = taken ++ left ∧ offset = Utf8.sizeAll taken ∧
    ∀ quoted ∈ fault.quoted?, quoted <+: Utf8.encodeAll left

theorem LiesIn.append {codes : List Nat} {fault : LexicalFault} {offset : Nat}
    (hlies : LiesIn codes fault offset) (before : List Nat) :
    LiesIn (before ++ codes) fault (Utf8.sizeAll before + offset) := by
  obtain ⟨taken, left, rfl, rfl, hquoted⟩ := hlies
  exact ⟨before ++ taken, left, by rw [List.append_assoc], by rw [Utf8.sizeAll_append], hquoted⟩

/-- A fault at the start of code points, which quotes nothing. -/
theorem liesIn_of_unquoted {codes : List Nat} {fault : LexicalFault}
    (hquoted : fault.quoted? = none) : LiesIn codes fault 0 :=
  ⟨[], codes, rfl, rfl, by simp [hquoted]⟩

/-- A fault at the start of code points, which quotes some of the first of them. -/
theorem liesIn_of_quoted {codes quoted rest : List Nat} {fault : LexicalFault}
    (hcodes : quoted ++ rest = codes) (hquoted : fault.quoted? = some (Utf8.encodeAll quoted)) :
    LiesIn codes fault 0 := by
  refine ⟨[], codes, rfl, rfl, fun other hother ↦ ?_⟩
  obtain rfl := Option.some.inj (hquoted.symm.trans hother)
  rw [← hcodes, Utf8.encodeAll, Utf8.encodeAll, List.flatMap_append]
  exact List.prefix_append _ _

theorem liesIn_of_number {codes : List Nat} {failure : Failure}
    (hread : number codes = .error failure) : LiesIn codes failure.fault failure.offset := by
  unfold number at hread
  split at hread
  · cases hread
    exact liesIn_of_quoted (Mantissa.codes_scan codes) rfl
  · next numeral rest hscan =>
    have hcodes := Numeral.codes_scan hscan
    split at hread
    · next hpoint =>
      obtain ⟨after, rfl⟩ := List.head?_eq_some_iff.mp hpoint
      cases hread
      exact liesIn_of_quoted (by rwa [List.append_assoc]) rfl
    · split at hread
      · cases hread
      · cases hread
        exact liesIn_of_quoted hcodes rfl

theorem liesIn_of_superscript {ending : Option Utf8.Fault} {codes : List Nat} {failure : Failure}
    (hread : superscript ending codes = .error failure) :
    LiesIn codes failure.fault failure.offset := by
  simp only [superscript] at hread
  split at hread
  · cases hread
    exact liesIn_of_unquoted rfl
  · split at hread
    · split at hread
      · cases hread
        exact ⟨_, _, (codes_scanSuperscriptSign codes).symm, rfl, by simp [LexicalFault.quoted?]⟩
      · cases hread
        exact liesIn_of_unquoted rfl
    · cases hread

theorem liesIn_of_lexeme {ending : Option Utf8.Fault} {first : Nat} {rest : List Nat}
    {failure : Failure} (hread : lexeme ending first rest = .error failure) :
    LiesIn (first :: rest) failure.fault failure.offset := by
  unfold lexeme at hread
  split at hread
  · cases hread
  split at hread
  · cases hread
  split at hread
  · cases hread
  split at hread
  · exact liesIn_of_number hread
  split at hread
  · exact liesIn_of_superscript hread
  split at hread
  · cases hread
  · cases hread
    exact liesIn_of_unquoted rfl

/-- A refusal of code points lies in them, wherever they start. -/
theorem liesIn_of_tokens {ending : Option Utf8.Fault} {position : Nat} {spaced : Bool}
    {codes : List Nat} {refusal : Refusal}
    (hread : tokens ending position spaced codes = .error refusal) :
    ∃ offset, refusal.position = position + offset ∧ LiesIn codes refusal.fault offset := by
  induction position, spaced, codes using tokens.induct ending with
  | case1 position spaced hending =>
    subst hending
    rw [tokens] at hread
    cases hread
  | case2 position spaced fault hending =>
    subst hending
    rw [tokens] at hread
    cases hread
    exact ⟨0, rfl, liesIn_of_unquoted rfl⟩
  | case3 position spaced first rest hblank ih =>
    rw [tokens, if_pos hblank] at hread
    obtain ⟨offset, hposition, hlies⟩ := ih hread
    refine ⟨Utf8.sizeAll [first] + offset, ?_, hlies.append [first]⟩
    rw [hposition, Utf8.sizeAll_cons, Nat.add_assoc]
    rfl
  | case4 position spaced first rest hblank failure hfailure =>
    rw [tokens_cons_of_failure hblank hfailure] at hread
    cases hread
    exact ⟨failure.offset, rfl, liesIn_of_lexeme hfailure⟩
  | case5 position spaced first rest hblank read hlexeme ih =>
    rw [tokens_cons_of_lexeme (by simpa using hblank) hlexeme, map_eq_error_iff] at hread
    obtain ⟨offset, hposition, hlies⟩ := ih hread
    refine ⟨Utf8.sizeAll read.codes + offset, by rw [hposition, Nat.add_assoc], ?_⟩
    rw [← (lexeme_codes hlexeme).1]
    exact hlies.append read.codes

end Lexer

/-- A text without tokens is refused at one of its bytes or at its end, and what the fault quotes
stands there. -/
theorem Token.ofText_eq_error {text : Text} {error : ExpressionError}
    (hread : ofText text = .error error) :
    ∃ fault position, error = ⟨.lexical fault, text, position⟩ ∧ position ≤ text.length ∧
      ∀ quoted ∈ fault.quoted?, text.HoldsAt quoted position := by
  rw [ofText] at hread
  cases hdecode : Utf8.decodeAll text with
  | mk codes ending =>
    rw [hdecode] at hread
    obtain ⟨⟨fault, position⟩, hrefused, rfl⟩ := mapError_eq_error_iff.mp hread
    obtain ⟨offset, hposition, taken, left, rfl, rfl, hquoted⟩ := Lexer.liesIn_of_tokens hrefused
    obtain ⟨after, htext⟩ := Utf8.encodeAll_prefix_of_decodeAll hdecode
    have hlength : (Utf8.encodeAll taken).length = position := by
      rw [show position = _ from hposition, Nat.zero_add, Utf8.sizeAll]
    have hparts : text = Utf8.encodeAll taken ++ (Utf8.encodeAll left ++ after) := by
      rw [← htext, Utf8.encodeAll, List.flatMap_append, List.append_assoc]
      rfl
    refine ⟨fault, position, rfl, ?_, fun quoted hmem ↦ ?_⟩
    · exact Text.HoldsAt.position_le ⟨_, after, hparts, hlength⟩
    · obtain ⟨behind, hleft⟩ := hquoted quoted hmem
      exact ⟨_, behind ++ after, by rw [hparts, ← hleft, List.append_assoc], hlength⟩

/-! ### Faults of grammar -/

/-- An occurrence is that of a symbol among tokens. -/
def Occurrence.IsIn (occurrence : Occurrence) (tokens : List Token) : Prop :=
  ∃ token ∈ tokens, Grammar.occurrence? token = some occurrence

/-- A refusal is not that of tokens without end, and lies at a token or at the start. -/
structure GrammarRefusal.LiesIn (refusal : GrammarRefusal) (tokens : List Token) : Prop where
  position_eq : refusal.position = 0 ∨ ∃ token ∈ tokens, token.position = refusal.position
  ne_unterminated : refusal.fault ≠ .unterminated

/-- The occurrences of factors and of an ending are symbols among tokens, and the refusal of the
ending lies there. -/
structure Outline.AccountsFor (result : List Factor × Ending) (tokens : List Token) : Prop where
  factors : ∀ factor ∈ result.1, factor.occurrence.IsIn tokens
  unfinished : ∀ occurrence refusal, result.2 = .broken (some occurrence) refusal →
    occurrence.IsIn tokens
  refusal : ∀ unfinished refusal, result.2 = .broken unfinished refusal → refusal.LiesIn tokens

theorem Occurrence.IsIn.mono {occurrence : Occurrence} {tokens others : List Token}
    (hin : occurrence.IsIn tokens) (hsubset : tokens ⊆ others) : occurrence.IsIn others := by
  obtain ⟨token, htoken, hoccurrence⟩ := hin
  exact ⟨token, hsubset htoken, hoccurrence⟩

theorem GrammarRefusal.LiesIn.mono {refusal : GrammarRefusal} {tokens others : List Token}
    (hlies : refusal.LiesIn tokens) (hsubset : tokens ⊆ others) : refusal.LiesIn others :=
  ⟨hlies.position_eq.imp_right fun ⟨token, htoken, heq⟩ ↦ ⟨token, hsubset htoken, heq⟩,
    hlies.ne_unterminated⟩

namespace Grammar

theorem Term.kind_ne_finish {inverted : Bool} {term : List Token} {factor : Factor}
    (hterm : Term inverted term factor) : ∀ token ∈ term, token.kind ≠ .finish := by
  cases hterm with
  | mk hsymbol hpower =>
    cases hpower with
    | implicit => simp [hsymbol]
    | caret hcaret hnumber _ => simp [hsymbol, hcaret, hnumber]
    | superscript hraised _ => simp [hsymbol, hraised]

theorem Tail.kind_ne_finish {body : List Token} {factors : List Factor}
    (htail : Tail body factors) : ∀ token ∈ body, token.kind ≠ .finish := by
  induction htail with
  | nil => simp
  | @operator operator inverted term rest _ _ hoperator hterm _ ih =>
    have hkind : operator.kind ≠ .finish := by cases inverted <;> simp [hoperator, operatorKind]
    intro token htoken
    rcases List.mem_cons.mp htoken with rfl | hmem
    · exact hkind
    · exact (List.mem_append.mp hmem).elim (hterm.kind_ne_finish token) (ih token)
  | blank _ hterm _ ih =>
    intro token htoken
    exact (List.mem_append.mp htoken).elim (hterm.kind_ne_finish token) (ih token)

end Grammar

namespace Outline

open Grammar

/-- Tokens that end with an end of input. -/
def Closed (tokens : List Token) : Prop :=
  ∃ body final, tokens = body ++ [final] ∧ final.kind = .finish

theorem Closed.ne_nil {tokens : List Token} (hclosed : Closed tokens) : tokens ≠ [] := by
  obtain ⟨body, final, rfl, _⟩ := hclosed
  simp

/-- Behind tokens that are no end of input the rest still ends with one. -/
theorem Closed.of_append {taken rest : List Token} (hclosed : Closed (taken ++ rest))
    (htaken : ∀ token ∈ taken, token.kind ≠ .finish) : Closed rest := by
  obtain ⟨body, final, htokens, hfinal⟩ := hclosed
  rcases List.eq_nil_or_concat rest with rfl | ⟨before, last, rfl⟩
  · rw [List.append_nil] at htokens
    exact absurd hfinal (htaken final (by simp [htokens]))
  · rw [List.concat_eq_append, ← List.append_assoc] at htokens
    obtain rfl := List.singleton_inj.mp (List.append_inj' htokens rfl).2
    exact ⟨before, last, List.concat_eq_append, hfinal⟩

theorem Closed.of_cons {token : Token} {rest : List Token} (hclosed : Closed (token :: rest))
    (hkind : token.kind ≠ .finish) : Closed rest :=
  @Closed.of_append [token] rest hclosed (by simpa using hkind)

variable {tokens rest : List Token}

/-- Reading takes the symbol of an occurrence and leaves tokens that end with an end of input. -/
theorem closed_of_taken {taken : List Token} {occurrence : Occurrence}
    (hclosed : Closed (taken ++ rest)) (hkind : ∀ token ∈ taken, token.kind ≠ .finish)
    (htaken : taken.filterMap occurrence? = [occurrence]) :
    Closed rest ∧ rest ⊆ taken ++ rest ∧ occurrence.IsIn (taken ++ rest) := by
  have hoccurrence : occurrence ∈ taken.filterMap occurrence? := by simp [htaken]
  obtain ⟨token, htoken, heq⟩ := List.mem_filterMap.mp hoccurrence
  exact ⟨hclosed.of_append hkind, List.subset_append_right _ _, token,
    List.mem_append_left _ htoken, heq⟩

theorem closed_of_factor {inverted : Bool} {result : Factor} (hclosed : Closed tokens)
    (hread : factor inverted tokens = .ok (result, rest)) :
    Closed rest ∧ rest ⊆ tokens ∧ result.occurrence.IsIn tokens := by
  obtain ⟨term, hterm, rfl⟩ := exists_term_of_factor hread
  exact closed_of_taken hclosed hterm.kind_ne_finish hterm.filterMap_occurrence?

theorem closed_of_nextFactor {token : Token} {after : List Token} {result : Factor}
    (hclosed : Closed (token :: after)) (hread : nextFactor token after = .ok (result, rest)) :
    Closed rest ∧ rest ⊆ token :: after ∧ result.occurrence.IsIn (token :: after) := by
  obtain ⟨taken, htokens, htail⟩ := exists_tail_of_nextFactor hread
  have htaken := htail .nil
  rw [List.append_nil] at htaken
  rw [htokens] at hclosed ⊢
  exact closed_of_taken hclosed htaken.kind_ne_finish htaken.filterMap_occurrence?

theorem liesIn_unexpected (expectation : Expectation) {token : Token} (htoken : token ∈ tokens) :
    (unexpected expectation token).LiesIn tokens :=
  ⟨.inr ⟨token, htoken, rfl⟩, by simp [unexpected]⟩

theorem liesIn_of_caretExponent {refusal : GrammarRefusal} (hsome : tokens ≠ [])
    (hread : caretExponent tokens = .error refusal) : refusal.LiesIn tokens := by
  unfold caretExponent at hread
  split at hread
  · exact absurd rfl hsome
  · split at hread
    · split at hread
      · cases hread
        exact ⟨.inr ⟨_, List.mem_cons_self, rfl⟩, by simp⟩
      · cases hread
    · cases hread
      exact liesIn_unexpected _ List.mem_cons_self

theorem liesIn_of_exponent {refusal : GrammarRefusal} (hclosed : Closed tokens)
    (hread : exponent tokens = .error refusal) : refusal.LiesIn tokens := by
  unfold exponent at hread
  split at hread
  · exact absurd rfl hclosed.ne_nil
  · next token rest =>
    split at hread
    · split at hread
      · cases hread
        exact ⟨.inr ⟨token, List.mem_cons_self, rfl⟩, by simp⟩
      · cases hread
    · next hcaret =>
      have hrest : Closed rest := hclosed.of_cons (by simp [hcaret])
      exact (liesIn_of_caretExponent hrest.ne_nil hread).mono (List.subset_cons_self _ _)
    · cases hread

/-- A factor that cannot be read is refused at a token, and its symbol is one if it has any. -/
theorem liesIn_of_factor {inverted : Bool} {unfinished : Option Occurrence}
    {refusal : GrammarRefusal} (hclosed : Closed tokens)
    (hread : factor inverted tokens = .error (unfinished, refusal)) :
    refusal.LiesIn tokens ∧ ∀ occurrence ∈ unfinished, occurrence.IsIn tokens := by
  unfold factor at hread
  split at hread
  · exact absurd rfl hclosed.ne_nil
  · next token rest =>
    split at hread
    · next hsymbol =>
      dsimp only at hread
      split at hread
      · cases hread
      · next refused hexponent =>
        cases hread
        have hrest : Closed rest := hclosed.of_cons (by simp [hsymbol])
        refine ⟨(liesIn_of_exponent hrest hexponent).mono (List.subset_cons_self _ _), ?_⟩
        rintro _ ⟨⟩
        exact ⟨token, List.mem_cons_self, if_pos hsymbol⟩
    · cases hread
      exact ⟨liesIn_unexpected _ List.mem_cons_self, by simp⟩

theorem liesIn_of_nextFactor {token : Token} {unfinished : Option Occurrence}
    {refusal : GrammarRefusal} (hclosed : Closed (token :: rest))
    (hread : nextFactor token rest = .error (unfinished, refusal)) :
    refusal.LiesIn (token :: rest) ∧
      ∀ occurrence ∈ unfinished, occurrence.IsIn (token :: rest) := by
  have hbehind : token.kind ≠ .finish → ∀ {inverted},
      factor inverted rest = .error (unfinished, refusal) →
      refusal.LiesIn (token :: rest) ∧
        ∀ occurrence ∈ unfinished, occurrence.IsIn (token :: rest) := by
    intro hkind inverted hfactor
    obtain ⟨hlies, hunfinished⟩ := liesIn_of_factor (hclosed.of_cons hkind) hfactor
    exact ⟨hlies.mono (List.subset_cons_self _ _),
      fun occurrence hmem ↦ (hunfinished occurrence hmem).mono (List.subset_cons_self _ _)⟩
  unfold nextFactor at hread
  split at hread
  · next hkind => exact hbehind (by simp [hkind]) hread
  · next hkind => exact hbehind (by simp [hkind]) hread
  · split at hread
    · exact liesIn_of_factor hclosed hread
    · cases hread
      exact ⟨liesIn_unexpected _ List.mem_cons_self, by simp⟩
  · cases hread
    exact ⟨liesIn_unexpected _ List.mem_cons_self, by simp⟩

theorem AccountsFor.mono {result : List Factor × Ending} (haccounts : AccountsFor result rest)
    (hsubset : rest ⊆ tokens) : AccountsFor result tokens :=
  ⟨fun factor hfactor ↦ (haccounts.factors factor hfactor).mono hsubset,
    fun occurrence refusal heq ↦ (haccounts.unfinished occurrence refusal heq).mono hsubset,
    fun unfinished refusal heq ↦ (haccounts.refusal unfinished refusal heq).mono hsubset⟩

theorem accountsFor_complete : AccountsFor ([], .complete) tokens :=
  ⟨by simp, by simp, by simp⟩

theorem accountsFor_broken {unfinished : Option Occurrence} {refusal : GrammarRefusal}
    (hlies : refusal.LiesIn tokens)
    (hunfinished : ∀ occurrence ∈ unfinished, occurrence.IsIn tokens) :
    AccountsFor ([], .broken unfinished refusal) tokens := by
  refine ⟨by simp, fun occurrence other heq ↦ ?_, fun _ other heq ↦ ?_⟩
  · cases heq
    exact hunfinished occurrence rfl
  · cases heq
    exact hlies

theorem AccountsFor.cons {first : Factor} {result : List Factor × Ending}
    (haccounts : AccountsFor result tokens) (hfirst : first.occurrence.IsIn tokens) :
    AccountsFor (first :: result.1, result.2) tokens :=
  ⟨fun factor hfactor ↦ (List.mem_cons.mp hfactor).elim (· ▸ hfirst) (haccounts.factors factor),
    haccounts.unfinished, haccounts.refusal⟩

theorem accountsFor_tail (hclosed : Closed tokens) : AccountsFor (tail tokens) tokens := by
  induction tokens using tail.induct with
  | case1 => exact absurd rfl hclosed.ne_nil
  | case2 token rest hfinal =>
    rw [tail, if_pos hfinal]
    exact accountsFor_complete
  | case3 token rest hkind first after hfactor _ _ _ ih =>
    obtain ⟨hafter, hsubset, hfirst⟩ := closed_of_nextFactor hclosed hfactor
    rw [tail_cons_of_nextFactor hkind hfactor]
    exact ((ih hafter).mono hsubset).cons hfirst
  | case4 token rest hkind unfinished refusal hfactor =>
    obtain ⟨hlies, hunfinished⟩ := liesIn_of_nextFactor hclosed hfactor
    rw [tail_cons_of_refusal hkind hfactor]
    exact accountsFor_broken hlies hunfinished

theorem accountsFor_leading (hclosed : Closed tokens) : AccountsFor (leading tokens) tokens := by
  unfold leading
  split
  · next first after hfactor =>
    obtain ⟨hafter, hsubset, hfirst⟩ := closed_of_factor hclosed hfactor
    exact ((accountsFor_tail hafter).mono hsubset).cons hfirst
  · next unfinished refusal hfactor =>
    obtain ⟨hlies, hunfinished⟩ := liesIn_of_factor hclosed hfactor
    exact accountsFor_broken hlies hunfinished

theorem accountsFor_afterNumber (hclosed : Closed tokens) :
    AccountsFor (afterNumber tokens) tokens := by
  unfold afterNumber
  split
  · exact absurd rfl hclosed.ne_nil
  · split
    · exact accountsFor_tail hclosed
    · exact accountsFor_leading hclosed

/-- All that an outline names comes from the tokens, which it never reads to their end. -/
theorem accountsFor_ofTokens (hclosed : Closed tokens) :
    AccountsFor ((ofTokens tokens).factors, (ofTokens tokens).ending) tokens := by
  unfold ofTokens
  split
  · exact absurd rfl hclosed.ne_nil
  · next token rest =>
    split
    · exact accountsFor_broken ⟨.inl rfl, by simp⟩ (by simp)
    · next hnumber =>
      have hrest : Closed rest := hclosed.of_cons (by simp [hnumber])
      exact (accountsFor_afterNumber hrest).mono (List.subset_cons_self _ _)
    · exact accountsFor_leading hclosed

end Outline

end Metrology
