import Metrology.Proofs.Expression.Lexing

/-!
# Tokens lay out their text

The tokens of a text and the gaps between them make up the text: no byte is lost, and none belongs
to two tokens. `Lexer.LaysOut` says so of a part of a text, by recursion on its tokens. Reading
yields only such tokens (`Reads.laysOut`): blanks that were skipped are the gap before the next
token, the one place where the flag of a token and the text that it stands for are tied together.
What the layout says of the token at any place of the list follows by splitting the text there
(`LaysOut.exists_parts`).
-/

set_option autoImplicit false
set_option relaxedAutoImplicit false

namespace Metrology

namespace Token

/-- The byte offset behind a token. -/
def stop (token : Token) : Nat :=
  token.position + token.text.length

/-- The byte offset behind the last of some tokens; `start` when there are none. -/
def reach (start : Nat) : List Token → Nat
  | [] => start
  | token :: rest => reach token.stop rest

theorem reach_append_singleton (start : Nat) (before : List Token) (token : Token) :
    reach start (before ++ [token]) = token.stop := by
  induction before generalizing start with
  | nil => rfl
  | cons first rest ih => exact ih first.stop

end Token

namespace Lexer

/-- The bytes of the blanks: space, tab, carriage return, line feed and the no-break space. -/
def blankTexts : List Text :=
  [[32], [9], [13], [10], [0xC2, 0xA0]]

/-- A text of blanks only, which may be empty. -/
def IsGap (text : Text) : Prop :=
  ∃ blanks : List Text, (∀ blank ∈ blanks, blank ∈ blankTexts) ∧ blanks.flatten = text

/-- A symbol that follows a symbol does so after blanks. -/
def Apart (first second : Token) : Prop :=
  first.kind = .symbol → second.kind = .symbol → second.spaced = true

/-- A part of a text, from a byte offset on, is a gap and a token, a gap and a token, and so on; the
last gap comes before the end of the input, which has no text. -/
inductive LaysOut : Nat → Text → List Token → Prop
  | finish {start : Nat} {gap : Text} {final : Token} (hgap : IsGap gap)
      (hspaced : final.spaced = true ↔ gap ≠ []) (hposition : final.position = start + gap.length)
      (hkind : final.kind = .finish) (htext : final.text = []) : LaysOut start gap [final]
  | token {start : Nat} {gap text : Text} {token next : Token} {others : List Token}
      (hgap : IsGap gap) (hspaced : token.spaced = true ↔ gap ≠ [])
      (hposition : token.position = start + gap.length) (hkind : token.kind ≠ .finish)
      (htext : token.text ≠ []) (hapart : Apart token next)
      (hrest : LaysOut token.stop text (next :: others)) :
      LaysOut start (gap ++ (token.text ++ text)) (token :: next :: others)

/-! ### Reading lays out the text -/

theorem isGap_nil : IsGap [] :=
  ⟨[], by simp, rfl⟩

theorem encode_mem_blankTexts {code : Nat} (hblank : isBlank code = true) :
    Utf8.encode code ∈ blankTexts := by
  simp only [isBlank, Bool.or_eq_true, beq_iff_eq] at hblank
  rcases hblank with (((rfl | rfl) | rfl) | rfl) | rfl <;> decide

theorem IsGap.append_blank {gap : Text} {code : Nat} (hgap : IsGap gap)
    (hblank : isBlank code = true) : IsGap (gap ++ Utf8.encode code) := by
  obtain ⟨blanks, hblanks, rfl⟩ := hgap
  refine ⟨blanks ++ [Utf8.encode code], fun blank hmem ↦ ?_, by simp⟩
  rcases List.mem_append.mp hmem with hold | hnew
  · exact hblanks blank hold
  · rw [List.mem_singleton.mp hnew]
    exact encode_mem_blankTexts hblank

/-- No character of a symbol follows a symbol. -/
theorem isSymbol_head_rest {ending : Option Utf8.Fault} {first : Nat} {rest : List Nat}
    {read : Lexeme} (hread : lexeme ending first rest = .ok read) (hkind : read.kind = .symbol) :
    ∀ code ∈ read.rest.head?, isSymbol code = false := by
  obtain ⟨_, rfl⟩ := symbol_of_lexeme hread hkind
  intro code hcode
  have hnot := List.head?_dropWhile_not isSymbol rest
  rw [Option.mem_def.mp hcode] at hnot
  simpa using hnot

namespace Reads

variable {position : Nat} {spaced : Bool} {codes : List Nat} {result : List Token}

/-- Blanks that were skipped are told by the next token. -/
theorem spaced_head (hreads : Reads position spaced codes result) (hspaced : spaced = true) :
    ∀ token ∈ result.head?, token.spaced = true := by
  induction hreads with
  | finish position spaced => simpa using hspaced
  | blank _ _ ih => exact ih rfl
  | lexeme _ _ _ _ => simpa using hspaced

/-- A symbol without blanks before it starts at once. -/
theorem isSymbol_head (hreads : Reads position spaced codes result) {token : Token}
    (htoken : token ∈ result.head?) (hkind : token.kind = .symbol)
    (hattached : token.spaced = false) : ∃ code ∈ codes.head?, isSymbol code = true := by
  cases hreads with
  | finish =>
    cases htoken
    cases hkind
  | blank _ hrest =>
    rw [hrest.spaced_head rfl token htoken] at hattached
    cases hattached
  | @lexeme _ first _ rest read _ _ hread _ =>
    cases htoken
    obtain ⟨hcodes, hsome⟩ := lexeme_codes hread
    obtain ⟨code, behind, hreadCodes⟩ := List.exists_cons_of_ne_nil hsome
    have hfirst : code = first := by
      rw [hreadCodes, List.cons_append] at hcodes
      exact (List.cons.inj hcodes).1
    exact ⟨first, rfl, isSymbol_of_lexeme hread hkind first (by simp [hreadCodes, hfirst])⟩

/-- A symbol takes all characters of symbols that follow, so another one comes after blanks only. -/
theorem apart {first : Nat} {rest : List Nat} {read : Lexeme} {token next : Token}
    (hreads : Reads position spaced read.rest result)
    (hread : Lexer.lexeme none first rest = .ok read) (hnext : next ∈ result.head?)
    (htoken : token.kind = read.kind) : Apart token next := by
  intro hkind hnextKind
  rw [← Bool.not_eq_false]
  intro hattached
  obtain ⟨code, hcode, hsymbol⟩ := hreads.isSymbol_head hnext hnextKind hattached
  rw [isSymbol_head_rest hread (htoken ▸ hkind) code hcode] at hsymbol
  cases hsymbol

theorem exists_cons (hreads : Reads position spaced codes result) :
    ∃ first rest, result = first :: rest := by
  obtain ⟨body, final, rfl, _⟩ := hreads.eq_append_finish
  exact List.exists_cons_of_ne_nil (by simp)

/-- What was read lays out its text, together with the blanks that were skipped before it. -/
theorem laysOut (hreads : Reads position spaced codes result) {start : Nat} {gap : Text}
    (hgap : IsGap gap) (hspaced : spaced = true ↔ gap ≠ [])
    (hposition : position = start + gap.length) :
    LaysOut start (gap ++ Utf8.encodeAll codes) result := by
  induction hreads generalizing start gap with
  | finish position spaced =>
    rw [show Utf8.encodeAll [] = [] from rfl, List.append_nil]
    exact .finish hgap hspaced hposition rfl rfl
  | @blank position first spaced rest result hblank _ ih =>
    rw [Utf8.encodeAll_cons, ← List.append_assoc]
    refine ih (hgap.append_blank hblank) ?_ ?_
    · simp [Utf8.encode_ne_nil]
    · rw [hposition, List.length_append, Nat.add_assoc, Utf8.size]
  | @lexeme position first spaced rest read others _ hread hrest ih =>
    obtain ⟨hcodes, hsome⟩ := lexeme_codes hread
    obtain ⟨next, behind, rfl⟩ := hrest.exists_cons
    rw [← hcodes, Utf8.encodeAll_append]
    have hlays := @ih (position + Utf8.sizeAll read.codes) [] isGap_nil (by simp) rfl
    exact @LaysOut.token start gap _ ⟨read.kind, Utf8.encodeAll read.codes, position, spaced⟩ next
      behind hgap hspaced hposition (lexeme_kind_ne_finish hread) (Utf8.encodeAll_ne_nil hsome)
      (hrest.apart hread rfl rfl) hlays

end Reads

/-! ### What a layout says of each token -/

namespace LaysOut

variable {start : Nat} {text : Text} {tokens : List Token}

/-- The end of the input is the last token and stands at the end of the text; all others have a
text. -/
theorem exists_final (hlays : LaysOut start text tokens) :
    ∃ body final, tokens = body ++ [final] ∧ final.kind = .finish ∧
      final.position = start + text.length ∧
      ∀ token ∈ body, token.kind ≠ .finish ∧ token.text ≠ [] := by
  induction hlays with
  | finish _ _ hposition hkind _ => exact ⟨[], _, rfl, hkind, hposition, by simp⟩
  | @token start gap text token next others _ _ hposition hkind htext _ _ ih =>
    obtain ⟨body, final, htokens, hfinal, hend, hbody⟩ := ih
    refine ⟨token :: body, final, by rw [htokens, List.cons_append], hfinal, ?_, ?_⟩
    · rw [hend, Token.stop, hposition]
      simp only [List.length_append]
      omega
    · intro other hother
      rcases List.mem_cons.mp hother with rfl | hmem
      · exact ⟨hkind, htext⟩
      · exact hbody other hmem

/-- Behind some of the tokens the rest of them lay out the rest of the text. -/
theorem exists_rest {before : List Token} {token : Token} {after : List Token}
    (hlays : LaysOut start text (before ++ token :: after)) :
    ∃ taken left, text = taken ++ left ∧ Token.reach start before = start + taken.length ∧
      LaysOut (Token.reach start before) left (token :: after) := by
  induction before generalizing start text with
  | nil => exact ⟨[], text, rfl, rfl, hlays⟩
  | cons first rest ih =>
    generalize htokens : first :: rest ++ token :: after = tokens at hlays
    cases hlays with
    | finish => simp at htokens
    | @token _ gap text _ next others _ _ hposition _ _ _ hrest =>
      obtain ⟨rfl, hothers⟩ := List.cons.inj htokens
      rw [← hothers] at hrest
      obtain ⟨taken, left, rfl, hreach, hleft⟩ := ih hrest
      refine ⟨gap ++ (first.text ++ taken), left, by simp, ?_, hleft⟩
      rw [Token.reach, hreach, Token.stop, hposition]
      simp only [List.length_append]
      omega

theorem exists_gap {token : Token} {after : List Token}
    (hlays : LaysOut start text (token :: after)) :
    ∃ gap left, text = gap ++ (token.text ++ left) ∧ IsGap gap ∧
      (token.spaced = true ↔ gap ≠ []) ∧ token.position = start + gap.length := by
  cases hlays with
  | finish hgap hspaced hposition _ htext =>
    exact ⟨_, [], by simp [htext], hgap, hspaced, hposition⟩
  | token hgap hspaced hposition _ _ _ _ => exact ⟨_, _, rfl, hgap, hspaced, hposition⟩

/-- A text is what comes before the gap of a token, the gap, the token and the rest. -/
theorem exists_parts {before : List Token} {token : Token} {after : List Token}
    (hlays : LaysOut 0 text (before ++ token :: after)) :
    ∃ taken gap left, text = taken ++ (gap ++ (token.text ++ left)) ∧
      Token.reach 0 before = taken.length ∧ IsGap gap ∧ (token.spaced = true ↔ gap ≠ []) ∧
      token.position = taken.length + gap.length := by
  obtain ⟨taken, rest, rfl, hreach, hrest⟩ := hlays.exists_rest
  rw [Nat.zero_add] at hreach
  obtain ⟨gap, left, rfl, hgap, hspaced, hposition⟩ := hrest.exists_gap
  exact ⟨taken, gap, left, rfl, hreach, hgap, hspaced, by rw [hposition, hreach]⟩

/-- The text of a token stands in the text at its position. -/
theorem extract_eq_text {before : List Token} {token : Token} {after : List Token}
    (hlays : LaysOut 0 text (before ++ token :: after)) :
    text.extract token.position token.stop = token.text := by
  obtain ⟨taken, gap, left, rfl, _, _, _, hposition⟩ := hlays.exists_parts
  rw [Token.stop, hposition, ← List.append_assoc, ← List.length_append, List.extract,
    List.drop_left, Nat.add_sub_cancel_left, List.take_left]

/-- Between the token before it and a token there are only blanks, of which the token tells. -/
theorem isGap_extract {before : List Token} {token : Token} {after : List Token}
    (hlays : LaysOut 0 text (before ++ token :: after)) :
    IsGap (text.extract (Token.reach 0 before) token.position) ∧
      (token.spaced = true ↔ text.extract (Token.reach 0 before) token.position ≠ []) := by
  obtain ⟨taken, gap, left, rfl, hreach, hgap, hspaced, hposition⟩ := hlays.exists_parts
  rw [hposition, hreach, List.extract, List.drop_left, Nat.add_sub_cancel_left, List.take_left]
  exact ⟨hgap, hspaced⟩

theorem start_le_position (hlays : LaysOut start text tokens) :
    ∀ token ∈ tokens, start ≤ token.position := by
  induction hlays with
  | finish _ _ hposition _ _ =>
    intro token htoken
    rw [List.mem_singleton.mp htoken, hposition]
    exact Nat.le_add_right _ _
  | token _ _ hposition _ _ _ _ ih =>
    intro other hother
    rcases List.mem_cons.mp hother with rfl | hmem
    · rw [hposition]
      exact Nat.le_add_right _ _
    · have hle := ih other hmem
      rw [Token.stop] at hle
      omega

/-- Each token starts behind all those before it. -/
theorem pairwise (hlays : LaysOut start text tokens) :
    tokens.Pairwise fun first second ↦
      first.position < second.position ∧ first.stop ≤ second.position := by
  induction hlays with
  | finish => exact List.pairwise_singleton _ _
  | @token start gap text token next others _ _ _ _ htext _ hrest ih =>
    refine List.pairwise_cons.mpr ⟨fun other hother ↦ ?_, ih⟩
    have hle := hrest.start_le_position other hother
    have hpositive := List.length_pos_iff.mpr htext
    refine ⟨?_, hle⟩
    rw [Token.stop] at hle
    omega

theorem apart {before : List Token} {first second : Token} {after : List Token}
    (hlays : LaysOut start text (before ++ first :: second :: after)) : Apart first second := by
  obtain ⟨_, _, _, _, hrest⟩ := hlays.exists_rest
  cases hrest with
  | token _ _ _ _ _ hapart _ => exact hapart

/-- Two symbols in a row have blanks between them. -/
theorem extract_ne_nil_of_symbol {before : List Token} {first second : Token} {after : List Token}
    (hlays : LaysOut 0 text (before ++ first :: second :: after)) (hfirst : first.kind = .symbol)
    (hsecond : second.kind = .symbol) : text.extract first.stop second.position ≠ [] := by
  have hspaced := hlays.apart hfirst hsecond
  rw [List.append_cons] at hlays
  have hgap := hlays.isGap_extract.2.mp hspaced
  rwa [Token.reach_append_singleton] at hgap

end LaysOut

end Lexer

namespace Token

theorem laysOut_of_ofText {text : Text} {tokens : List Token}
    (hread : ofText text = .ok tokens) : Lexer.LaysOut 0 text tokens := by
  obtain ⟨codes, hdecode, hreads⟩ := ofText_eq_ok_iff.mp hread
  have hlays := hreads.laysOut Lexer.isGap_nil (by simp) rfl
  rwa [List.nil_append, Utf8.encodeAll_of_decodeAll hdecode] at hlays

/-- The tokens of a text are the end of the input, at the end of the text, and before it tokens with
a text that stands at their position. They come one behind the other. Between them, before the first
and behind the last there are only blanks; a token tells whether there are any before it. Between
two symbols in a row there are. -/
theorem ofText_covers {text : Text} {tokens : List Token} (hread : ofText text = .ok tokens) :
    ∃ body final, tokens = body ++ [final] ∧ final.kind = .finish ∧
      final.position = text.length ∧
      (∀ token ∈ body, token.kind ≠ .finish ∧ token.text ≠ [] ∧
        token.text = text.extract token.position token.stop) ∧
      tokens.Pairwise (fun first second ↦
        first.position < second.position ∧ first.stop ≤ second.position) ∧
      (∀ before token after, tokens = before ++ token :: after →
        Lexer.IsGap (text.extract (reach 0 before) token.position) ∧
          (token.spaced = true ↔ text.extract (reach 0 before) token.position ≠ [])) ∧
      ∀ before first second after, tokens = before ++ first :: second :: after →
        first.kind = .symbol → second.kind = .symbol →
          text.extract first.stop second.position ≠ [] := by
  have hlays := laysOut_of_ofText hread
  obtain ⟨body, final, rfl, hfinal, hposition, hbody⟩ := hlays.exists_final
  rw [Nat.zero_add] at hposition
  refine ⟨body, final, rfl, hfinal, hposition, fun token htoken ↦ ?_, hlays.pairwise, ?_, ?_⟩
  · obtain ⟨before, after, rfl⟩ := List.append_of_mem htoken
    rw [List.append_assoc, List.cons_append] at hlays
    exact ⟨(hbody token htoken).1, (hbody token htoken).2, hlays.extract_eq_text.symm⟩
  · intro before token after htokens
    rw [htokens] at hlays
    exact hlays.isGap_extract
  · intro before first second after htokens hfirst hsecond
    rw [htokens] at hlays
    exact hlays.extract_ne_nil_of_symbol hfirst hsecond

theorem ofText_covers_kilogram :
    ∃ first second rest, ofText (utf8 "kg\u00A0m² ") = .ok (first :: second :: rest) ∧
      first.text = (utf8 "kg\u00A0m² ").extract 0 2 ∧ second.position = 4 ∧
      Lexer.IsGap ((utf8 "kg\u00A0m² ").extract 2 4) := by
  have hcodes : Utf8.decodeAll (utf8 "kg\u00A0m² ") =
      ([107, 103, 160, 109, 178, 32], none) := by
    cbv
  have hread : ofText (utf8 "kg\u00A0m² ") =
      .ok [⟨.symbol, utf8 "kg", 0, false⟩, ⟨.symbol, utf8 "m", 4, true⟩,
        ⟨.superscript 2, utf8 "²", 5, false⟩, ⟨.finish, [], 8, true⟩] := by
    rw [ofText, hcodes]
    exact Fallible.mapError_eq_ok_iff.mpr (by cbv)
  obtain ⟨_, _, _, _, _, _, _, hgap, _⟩ := ofText_covers hread
  exact ⟨_, _, _, hread, rfl, rfl, (hgap [_] _ _ rfl).1⟩

end Token

end Metrology
