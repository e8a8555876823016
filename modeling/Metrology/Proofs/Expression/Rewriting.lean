import Metrology.Proofs.Expression.Spelling
import Metrology.Proofs.Expression.Numbers

/-!
# Rewriting a text

A text is rewritten by putting another sign of multiplication or blanks in the place of one, other
blanks in the place of blanks, and by adding blanks where they do not matter: at either end, behind
the number that the text starts with, and around operators (`Rewriting`). Each of these respells the
tokens of the text (`Rewriting.exists_respelled`). Operators and blanks end what stands before them,
so that all but one of these are about the text from there on (`Lexer.RespellsTo`). Behind the
number no separator needs to stand; the number is read again from its own characters
(`Lexer.number_codes_self`).
-/

set_option autoImplicit false
set_option relaxedAutoImplicit false

namespace Metrology

/-- The signs of multiplication: the asterisk, the middle dot, the dot operator and the
multiplication sign. -/
def timesTexts : List Text :=
  [[42], [0xC2, 0xB7], [0xE2, 0x8B, 0x85], [0xC3, 0x97]]

/-- A text of blanks, of which there is one at least. -/
structure Text.IsBlanks (text : Text) : Prop where
  isGap : Lexer.IsGap text
  ne_nil : text ≠ []

/-- The kinds of operators. -/
def TokenKind.IsOperator (kind : TokenKind) : Prop :=
  kind = .times ∨ kind = .divide ∨ kind = .caret

/-- A token of a text stands between two parts of it. -/
structure Token.IsBetween (token : Token) (before after text : Text) : Prop where
  isToken : ∃ tokens, ofText text = .ok tokens ∧ token ∈ tokens
  text_eq : text = before ++ (token.text ++ after)
  position_eq : token.position = before.length

/-- The ways to rewrite a text. -/
inductive Rewriting (text : Text) : Text → Prop
  | times {token : Token} {before after other : Text}
      (hbetween : token.IsBetween before after text) (htimes : token.kind = .times)
      (hother : other ∈ timesTexts) : Rewriting text (before ++ (other ++ after))
  | implicit {token : Token} {before after blanks : Text}
      (hbetween : token.IsBetween before after text) (htimes : token.kind = .times)
      (hblanks : blanks.IsBlanks) : Rewriting text (before ++ (blanks ++ after))
  | blanks {before blanks other after : Text} (htext : text = before ++ (blanks ++ after))
      (hblanks : blanks.IsBlanks) (hother : other.IsBlanks) :
      Rewriting text (before ++ (other ++ after))
  | start {blanks : Text} (hblanks : blanks.IsBlanks) : Rewriting text (blanks ++ text)
  | finish {blanks : Text} (hblanks : blanks.IsBlanks) : Rewriting text (text ++ blanks)
  | afterNumber {number : Token} {value : Float} {integer : Option Int} {others : List Token}
      {before after blanks : Text} (hread : Token.ofText text = .ok (number :: others))
      (hnumber : number.kind = .number value integer)
      (hbetween : number.IsBetween before after text) (hblanks : blanks.IsBlanks) :
      Rewriting text (before ++ (number.text ++ (blanks ++ after)))
  | beforeOperator {operator : Token} {before after blanks : Text}
      (hbetween : operator.IsBetween before after text) (hoperator : operator.kind.IsOperator)
      (hblanks : blanks.IsBlanks) :
      Rewriting text (before ++ (blanks ++ (operator.text ++ after)))
  | afterOperator {operator : Token} {before after blanks : Text}
      (hbetween : operator.IsBetween before after text) (hoperator : operator.kind.IsOperator)
      (hblanks : blanks.IsBlanks) :
      Rewriting text (before ++ (operator.text ++ (blanks ++ after)))

/-! ### Operators and numbers in a text -/

namespace Lexer

theorem timesTexts_eq : timesTexts = [42, 0xB7, 0x22C5, 0xD7].map Utf8.encode := by
  decide

theorem exists_code_of_mem_timesTexts {text : Text} (htext : text ∈ timesTexts) :
    ∃ code, operatorKind? code = some .times ∧ text = Utf8.encode code := by
  rw [timesTexts_eq] at htext
  obtain ⟨code, hcode, rfl⟩ := List.mem_map.mp htext
  exact ⟨code, (by decide : ∀ other ∈ [42, 0xB7, 0x22C5, 0xD7], operatorKind? other = some .times)
    code hcode, rfl⟩

/-- A number takes all of its own characters. -/
theorem number_codes_self {codes : List Nat} {read : Lexeme} (hread : number codes = .ok read) :
    number read.codes = .ok ⟨read.kind, read.codes, []⟩ := by
  obtain ⟨numeral, behind, hscan, hrange, rfl⟩ := exists_numeral_of_number hread
  rw [number, (Numeral.isWritten_of_scan hscan).scan_codes]
  simp only [List.head?_nil, reduceCtorEq, if_false, if_pos hrange]

/-- The lexeme of a number is read again from its own characters. -/
theorem exists_lexeme_self {ending : Option Utf8.Fault} {first : Nat} {rest : List Nat}
    {read : Lexeme} (hread : lexeme ending first rest = .ok read) {value : Float}
    {integer : Option Int} (hnumber : read.kind = .number value integer) :
    ∃ behind, read.codes = first :: behind ∧
      lexeme ending first behind = .ok ⟨read.kind, read.codes, []⟩ := by
  obtain ⟨hcodes, hsome⟩ := lexeme_codes hread
  obtain ⟨code, behind, hbehind⟩ := List.exists_cons_of_ne_nil hsome
  obtain rfl : code = first := by
    rw [hbehind, List.cons_append] at hcodes
    exact (List.cons.inj hcodes).1
  refine ⟨behind, hbehind, ?_⟩
  obtain ⟨hstarts, hlexeme⟩ := number_of_lexeme hread hnumber
  rw [lexeme_of_startsNumber hstarts, ← hbehind]
  exact number_codes_self hlexeme

namespace Reads

variable {position : Nat} {spaced : Bool} {codes : List Nat} {tokens : List Token}

/-- An operator among tokens is written by one code point. -/
theorem exists_operator (hreads : Reads position spaced codes tokens) {token : Token}
    (htoken : token ∈ tokens) (hoperator : token.kind.IsOperator) :
    ∃ code, operatorKind? code = some token.kind ∧ token.text = Utf8.encode code := by
  induction hreads with
  | finish =>
    rw [List.mem_singleton.mp htoken] at hoperator
    simp [TokenKind.IsOperator] at hoperator
  | blank _ _ ih => exact ih htoken
  | @lexeme _ first _ _ read _ _ hread _ ih =>
    rcases List.mem_cons.mp htoken with rfl | hmem
    · obtain ⟨hkind, hcodes⟩ := operatorKind?_of_lexeme hread hoperator
      refine ⟨first, hkind, ?_⟩
      show Utf8.encodeAll read.codes = _
      simp [hcodes, Utf8.encodeAll]
    · exact ih hmem

/-- Code points that start with a number are those that are read as the number alone, and others. -/
theorem exists_number {number : Token} {value : Float} {integer : Option Int}
    {others : List Token} (hreads : Reads position spaced codes (number :: others))
    (hnumber : number.kind = .number value integer) :
    ∃ taken rest final, codes = taken ++ rest ∧ Reads position spaced taken [number, final] ∧
      number.stop = position + Utf8.sizeAll taken ∧ Reads number.stop false rest others := by
  generalize htokens : number :: others = tokens at hreads
  induction hreads with
  | finish =>
    obtain ⟨rfl, _⟩ := List.cons.inj htokens
    cases hnumber
  | @blank position first _ _ _ hblank _ ih =>
    obtain ⟨taken, rest, final, rfl, htaken, hstop, hrest⟩ := ih htokens
    refine ⟨first :: taken, rest, final, rfl, .blank hblank htaken, ?_, hrest⟩
    rw [hstop, Utf8.sizeAll_cons, Nat.add_assoc]
  | @lexeme position first spaced rest read _ hblank hread hrest ih =>
    obtain ⟨rfl, rfl⟩ := List.cons.inj htokens
    obtain ⟨behind, hbehind, hself⟩ := exists_lexeme_self hread hnumber
    have halone := @Reads.lexeme position first spaced behind _ _ hblank hself (.finish _ false)
    rw [← hbehind] at halone
    exact ⟨read.codes, read.rest, _, (lexeme_codes hread).1.symm, halone, rfl, hrest⟩

end Reads

end Lexer

namespace Token

open Lexer

theorem IsBetween.exists_code {token : Token} {before after text : Text}
    (hbetween : token.IsBetween before after text) (hoperator : token.kind.IsOperator) :
    ∃ code, operatorKind? code = some token.kind ∧ token.text = Utf8.encode code := by
  obtain ⟨tokens, hread, htoken⟩ := hbetween.isToken
  obtain ⟨_, _, hreads⟩ := ofText_eq_ok_iff.mp hread
  exact hreads.exists_operator htoken hoperator

/-- A text that starts with a number is the number, with what is before it, and a rest. -/
theorem exists_readsText_of_number {text before after : Text} {number : Token} {value : Float}
    {integer : Option Int} {others : List Token} (hread : ofText text = .ok (number :: others))
    (hnumber : number.kind = .number value integer)
    (hbetween : number.IsBetween before after text) :
    (∃ final, ReadsText 0 false (before ++ number.text) [number, final]) ∧
      ReadsText number.stop false after others := by
  obtain ⟨codes, hdecode, hreads⟩ := ofText_eq_ok_iff.mp hread
  obtain ⟨taken, behind, final, rfl, htaken, hstop, hbehind⟩ := hreads.exists_number hnumber
  have hcodes := Utf8.lt_of_decodeAll hdecode
  have htext := Utf8.encodeAll_of_decodeAll hdecode
  rw [hbetween.text_eq, ← List.append_assoc, Utf8.encodeAll_append] at htext
  have hlength : (Utf8.encodeAll taken).length = (before ++ number.text).length := by
    rw [List.length_append, ← hbetween.position_eq, ← stop, hstop, Nat.zero_add, Utf8.sizeAll]
  obtain ⟨hfirst, hafter⟩ := List.append_inj htext hlength
  refine ⟨⟨final, taken, ?_, htaken⟩, behind, ?_, hbehind⟩
  · rw [← hfirst, Utf8.decodeAll_encodeAll fun code hcode ↦
      hcodes code (List.mem_append_left behind hcode)]
  · rw [← hafter, Utf8.decodeAll_encodeAll fun code hcode ↦
      hcodes code (List.mem_append_right taken hcode)]

end Token

theorem Text.IsBlanks.startsSeparated_append {blanks : Text} (hblanks : blanks.IsBlanks)
    (text : Text) : Lexer.StartsSeparated (blanks ++ text) :=
  hblanks.isGap.startsSeparated_append hblanks.ne_nil text

theorem Text.IsBlanks.readsText_append_iff {blanks text : Text} (hblanks : blanks.IsBlanks)
    {position : Nat} {spaced : Bool} {tokens : List Token} :
    Lexer.ReadsText position spaced (blanks ++ text) tokens ↔
      Lexer.ReadsText (position + blanks.length) true text tokens :=
  Lexer.ReadsText.gap_append_iff hblanks.isGap hblanks.ne_nil

/-! ### Respelled parts of a text -/

namespace Lexer

open Grammar

/-- What stands at a place in a text may be rewritten there: its tokens are respelled, whatever
stands before them. -/
def RespellsTo (first second : Text) : Prop :=
  ∀ position spaced tokens, ReadsText position spaced first tokens →
    ∃ others, ReadsText position spaced second others ∧
      ∀ attached, Respelled attached tokens others

namespace ReadsText

variable {position : Nat} {spaced : Bool} {text : Text} {tokens : List Token}

/-- A text may be moved to any place. -/
theorem exists_moved (hreads : ReadsText position spaced text tokens) (place : Nat) :
    ∃ others, ReadsText place spaced text others ∧
      ∀ attached, Respelled attached tokens others := by
  cases spaced with
  | false =>
    obtain ⟨others, hothers, rfl⟩ := shift_iff.mp hreads
    exact ⟨_, shift_iff.mpr ⟨others, hothers, rfl⟩, .shift others position place⟩
  | true =>
    obtain ⟨others, hothers, rfl⟩ := afterBlanks_iff.mp hreads
    exact ⟨_, afterBlanks_iff.mpr ⟨others, hothers, rfl⟩,
      .behindBlanks_shift others position place⟩

/-- Blanks may come before a text that does not stand behind a symbol. -/
theorem exists_behindBlanks (hreads : ReadsText position false text tokens) (place : Nat)
    {attached : Prop} (hfree : ¬ attached) :
    ∃ others, ReadsText place true text others ∧ Respelled attached tokens others := by
  obtain ⟨others, hothers, rfl⟩ := shift_iff.mp hreads
  exact ⟨_, afterBlanks_iff.mpr ⟨others, hothers, rfl⟩, .behindBlanks others position place hfree⟩

theorem exists_cons (hreads : ReadsText position spaced text tokens) :
    ∃ first rest, tokens = first :: rest := by
  obtain ⟨_, _, hcodes⟩ := hreads
  exact hcodes.exists_cons

theorem eq_append_finish (hreads : ReadsText position spaced text tokens) :
    ∃ body final, tokens = body ++ [final] ∧ final.kind = .finish := by
  obtain ⟨_, _, hcodes⟩ := hreads
  obtain ⟨body, final, htokens, hfinal, _⟩ := hcodes.eq_append_finish
  exact ⟨body, final, htokens, hfinal⟩

theorem spaced_head (hreads : ReadsText position true text tokens) :
    ∀ token ∈ tokens.head?, token.spaced = true := by
  obtain ⟨_, _, hcodes⟩ := hreads
  exact hcodes.spaced_head rfl

end ReadsText

theorem RespellsTo.append_left {first second : Text} (hrespells : RespellsTo first second)
    (hfirst : StartsSeparated first) (hsecond : StartsSeparated second) (before : Text) :
    RespellsTo (before ++ first) (before ++ second) := by
  intro position spaced tokens hreads
  obtain ⟨body, final, behind, hbefore, hbehind, rfl⟩ := (ReadsText.append_iff hfirst).mp hreads
  obtain ⟨others, hothers, hrespelled⟩ := hrespells _ _ _ hbehind
  exact ⟨body ++ others, (ReadsText.append_iff hsecond).mpr
    ⟨body, final, others, hbefore, hothers, rfl⟩, .append_left body hrespelled⟩

section

variable {code sign : Nat} {kind : TokenKind} {after blanks other : Text}

theorem isOperator_of_operatorKind? (hcode : operatorKind? code = some kind) :
    kind.IsOperator := by
  unfold operatorKind? at hcode
  split at hcode
  · exact .inl (Option.some.inj hcode).symm
  split at hcode
  · exact .inr (.inl (Option.some.inj hcode).symm)
  split at hcode
  · exact .inr (.inr (Option.some.inj hcode).symm)
  · cases hcode

/-- The token of an operator may have another text, and blanks before it. -/
theorem alike_of_operatorKind? (hcode : operatorKind? code = some kind) {attached : Prop}
    {text other : Text} {position place : Nat} {spaced behind : Bool}
    (hspaced : spaced = true → behind = true) :
    Token.Alike attached ⟨kind, text, position, spaced⟩ ⟨kind, other, place, behind⟩ := by
  refine .of_kind rfl ?_ ?_ hspaced
  all_goals rcases isOperator_of_operatorKind? hcode with rfl | rfl | rfl <;> simp

theorem respellsTo_sign (hcode : operatorKind? code = some kind)
    (hsign : operatorKind? sign = some kind) :
    RespellsTo (Utf8.encode code ++ after) (Utf8.encode sign ++ after) := by
  intro position spaced tokens hreads
  obtain ⟨rest, hrest, rfl⟩ := (ReadsText.operator_append_iff hcode).mp hreads
  obtain ⟨others, hothers, hrespelled⟩ := hrest.exists_moved (position + Utf8.size sign)
  exact ⟨_, (ReadsText.operator_append_iff hsign).mpr ⟨others, hothers, rfl⟩,
    fun attached ↦ .cons (alike_of_operatorKind? hcode id) (hrespelled _)⟩

theorem respellsTo_implicit (hcode : operatorKind? code = some .times) (hblanks : blanks.IsBlanks) :
    RespellsTo (Utf8.encode code ++ after) (blanks ++ after) := by
  intro position spaced tokens hreads
  obtain ⟨rest, hrest, rfl⟩ := (ReadsText.operator_append_iff hcode).mp hreads
  obtain ⟨others, hothers, hrespelled⟩ :=
    hrest.exists_behindBlanks (position + blanks.length) not_false
  -- the token behind the sign tells of the blanks that stand in its place
  have hspaced := hothers.spaced_head
  obtain ⟨next, behind, rfl⟩ := hothers.exists_cons
  exact ⟨_, hblanks.readsText_append_iff.mpr hothers,
    fun attached ↦ .implicit rfl (hspaced next rfl) hrespelled⟩

theorem respellsTo_blanks (hblanks : blanks.IsBlanks) (hother : other.IsBlanks) :
    RespellsTo (blanks ++ after) (other ++ after) := by
  intro position spaced tokens hreads
  have hafter := hblanks.readsText_append_iff.mp hreads
  obtain ⟨others, hothers, hrespelled⟩ := hafter.exists_moved (position + other.length)
  exact ⟨others, hother.readsText_append_iff.mpr hothers, hrespelled⟩

theorem respellsTo_blanks_sign (hcode : operatorKind? code = some kind)
    (hblanks : blanks.IsBlanks) :
    RespellsTo (Utf8.encode code ++ after) (blanks ++ (Utf8.encode code ++ after)) := by
  intro position spaced tokens hreads
  obtain ⟨rest, hrest, rfl⟩ := (ReadsText.operator_append_iff hcode).mp hreads
  obtain ⟨others, hothers, hrespelled⟩ :=
    hrest.exists_moved (position + blanks.length + Utf8.size code)
  exact ⟨_, hblanks.readsText_append_iff.mpr
      ((ReadsText.operator_append_iff hcode).mpr ⟨others, hothers, rfl⟩),
    fun attached ↦ .cons (alike_of_operatorKind? hcode fun _ ↦ rfl) (hrespelled _)⟩

theorem respellsTo_sign_blanks (hcode : operatorKind? code = some kind)
    (hblanks : blanks.IsBlanks) :
    RespellsTo (Utf8.encode code ++ after) (Utf8.encode code ++ (blanks ++ after)) := by
  intro position spaced tokens hreads
  obtain ⟨rest, hrest, rfl⟩ := (ReadsText.operator_append_iff hcode).mp hreads
  have hfree : ¬ kind = .symbol := by
    rintro rfl
    simpa [TokenKind.IsOperator] using isOperator_of_operatorKind? hcode
  obtain ⟨others, hothers, hrespelled⟩ :=
    hrest.exists_behindBlanks (position + Utf8.size code + blanks.length) hfree
  exact ⟨_, (ReadsText.operator_append_iff hcode).mpr
      ⟨others, hblanks.readsText_append_iff.mpr hothers, rfl⟩,
    fun attached ↦ .cons (.refl _) hrespelled⟩

theorem respellsTo_append_blanks (text : Text) (hblanks : blanks.IsBlanks) :
    RespellsTo text (text ++ blanks) := by
  intro position spaced tokens hreads
  obtain ⟨body, final, rfl, hfinal⟩ := hreads.eq_append_finish
  have hnil : ReadsText (final.position + blanks.length) true []
      [⟨.finish, [], final.position + blanks.length, true⟩] :=
    ⟨[], by rw [Utf8.decodeAll], .finish _ true⟩
  have hall := (ReadsText.append_iff (hblanks.startsSeparated_append [])).mpr
    ⟨body, final, _, hreads, hblanks.readsText_append_iff.mpr hnil, rfl⟩
  rw [List.append_nil] at hall
  refine ⟨_, hall, .append_left body fun attached ↦ .cons ?_ .nil⟩
  exact .of_kind hfinal.symm (by simp [hfinal]) (by simp [hfinal]) fun _ ↦ rfl

end

end Lexer

/-! ### Rewriting respells the tokens -/

namespace Rewriting

open Lexer Grammar

variable {text other : Text} {tokens : List Token}

/-- An operator of a text may be rewritten in its place. -/
theorem exists_respelled_of_operator {token : Token} {before after part : Text}
    (hread : Token.ofText text = .ok tokens) (hbetween : token.IsBetween before after text)
    (hoperator : token.kind.IsOperator) (hpart : StartsSeparated part)
    (hrespells : ∀ {code}, operatorKind? code = some token.kind →
      token.text = Utf8.encode code → RespellsTo (Utf8.encode code ++ after) part) :
    ∃ others, Token.ofText (before ++ part) = .ok others ∧ Respelled False tokens others := by
  obtain ⟨code, hcode, htext⟩ := hbetween.exists_code hoperator
  rw [hbetween.text_eq, htext] at hread
  obtain ⟨others, hothers, hrespelled⟩ := (hrespells hcode htext).append_left
    ⟨code, after, separates_of_operatorKind? hcode, rfl⟩ hpart before _ _ _
    (Token.ofText_eq_ok_iff_readsText.mp hread)
  exact ⟨others, Token.ofText_eq_ok_iff_readsText.mpr hothers, hrespelled False⟩

/-- A text that is rewritten has the same tokens, in another spelling. -/
theorem exists_respelled (hrewriting : Rewriting text other)
    (hread : Token.ofText text = .ok tokens) :
    ∃ others, Token.ofText other = .ok others ∧ Respelled False tokens others := by
  have hreads := Token.ofText_eq_ok_iff_readsText.mp hread
  cases hrewriting with
  | times hbetween htimes hother =>
    obtain ⟨sign, hsign, rfl⟩ := exists_code_of_mem_timesTexts hother
    refine exists_respelled_of_operator hread hbetween (.inl htimes)
      ⟨sign, _, separates_of_operatorKind? hsign, rfl⟩ fun hcode _ ↦ ?_
    exact respellsTo_sign (hcode.trans (congrArg some htimes)) hsign
  | implicit hbetween htimes hblanks =>
    refine exists_respelled_of_operator hread hbetween (.inl htimes)
      (hblanks.startsSeparated_append _) fun hcode _ ↦ ?_
    exact respellsTo_implicit (hcode.trans (congrArg some htimes)) hblanks
  | @blanks before _ _ _ htext hblanks hother =>
    rw [htext] at hreads
    obtain ⟨others, hothers, hrespelled⟩ := (respellsTo_blanks hblanks hother).append_left
      (hblanks.startsSeparated_append _) (hother.startsSeparated_append _) before _ _ _ hreads
    exact ⟨others, Token.ofText_eq_ok_iff_readsText.mpr hothers, hrespelled False⟩
  | start hblanks =>
    -- no symbol stands before the first token
    obtain ⟨others, hothers, hrespelled⟩ := hreads.exists_behindBlanks _ not_false
    exact ⟨others, Token.ofText_eq_ok_iff_readsText.mpr
      (hblanks.readsText_append_iff.mpr hothers), hrespelled⟩
  | finish hblanks =>
    obtain ⟨others, hothers, hrespelled⟩ := respellsTo_append_blanks text hblanks _ _ _ hreads
    exact ⟨others, Token.ofText_eq_ok_iff_readsText.mpr hothers, hrespelled False⟩
  | @afterNumber number _ _ _ before after blanks hnumbers hnumber hbetween hblanks =>
    obtain rfl := Except.ok.inj (hread.symm.trans hnumbers)
    obtain ⟨⟨final, hfirst⟩, hafter⟩ := Token.exists_readsText_of_number hread hnumber hbetween
    have hfree : ¬ number.kind = .symbol := by simp [hnumber]
    obtain ⟨others, hothers, hrespelled⟩ :=
      hafter.exists_behindBlanks (final.position + blanks.length) hfree
    rw [← List.append_assoc]
    refine ⟨_, Token.ofText_eq_ok_iff_readsText.mpr ((ReadsText.append_iff
      (hblanks.startsSeparated_append after)).mpr
        ⟨[number], final, others, hfirst, ?_, rfl⟩), .cons (.refl number) hrespelled⟩
    exact hblanks.readsText_append_iff.mpr hothers
  | beforeOperator hbetween hoperator hblanks =>
    refine exists_respelled_of_operator hread hbetween hoperator
      (hblanks.startsSeparated_append _) fun hcode htext ↦ ?_
    rw [htext]
    exact respellsTo_blanks_sign hcode hblanks
  | @afterOperator operator _ _ _ hbetween hoperator hblanks =>
    obtain ⟨code, hcode, htext⟩ := hbetween.exists_code hoperator
    rw [htext]
    refine exists_respelled_of_operator hread hbetween hoperator
      ⟨code, _, separates_of_operatorKind? hcode, rfl⟩ fun _ hother ↦ ?_
    rw [← hother, htext]
    exact respellsTo_sign_blanks hcode hblanks

end Rewriting

end Metrology
