import Metrology.Expression.Lexer
import Metrology.Proofs.Numeric.Integers

/-!
# What reading a text yields

`Lexer.Reads` is reading as a relation between code points and tokens, which says nothing of faults:
a text has tokens when no fault ends its code points and they are read as those tokens
(`Token.ofText_eq_ok_iff`). Facts about tokens are proved by induction on it, and texts are read by
its rules, one for each kind of token that writing uses.
-/

set_option autoImplicit false
set_option relaxedAutoImplicit false

namespace Metrology

namespace Lexer

/-! ### Kinds of lexemes -/

theorem number_kind {codes : List Nat} {read : Lexeme} (hread : number codes = .ok read) :
    ∃ value integer, read.kind = .number value integer := by
  unfold number at hread
  split at hread
  · cases hread
  · split at hread
    · cases hread
    · split at hread
      · cases hread
        exact ⟨_, _, rfl⟩
      · cases hread

theorem superscript_kind {ending : Option Utf8.Fault} {codes : List Nat} {read : Lexeme}
    (hread : superscript ending codes = .ok read) :
    ∃ exponent, read.kind = .superscript exponent := by
  simp only [superscript] at hread
  split at hread
  · cases hread
  · split at hread
    · split at hread <;> cases hread
    · cases hread
      exact ⟨_, rfl⟩

/-- What a lexeme can be, by its first code point. -/
theorem lexeme_cases {ending : Option Utf8.Fault} {first : Nat} {rest : List Nat} {read : Lexeme}
    (hread : lexeme ending first rest = .ok read) :
    (isTimes first = true ∧ read = ⟨.times, [first], rest⟩) ∨
      (first = 47 ∧ read = ⟨.divide, [first], rest⟩) ∨
      (first = 94 ∧ read = ⟨.caret, [first], rest⟩) ∨
      (startsNumber first = true ∧ number (first :: rest) = .ok read) ∨
      ((isSuperscriptDigit first || isSuperscriptSign first) = true ∧
        superscript ending (first :: rest) = .ok read) ∨
      (isSymbol first = true ∧
        read = ⟨.symbol, first :: rest.takeWhile isSymbol, rest.dropWhile isSymbol⟩) := by
  unfold lexeme at hread
  split at hread
  · next htimes => exact .inl ⟨htimes, (Except.ok.inj hread).symm⟩
  split at hread
  · next hdivide => exact .inr (.inl ⟨hdivide, (Except.ok.inj hread).symm⟩)
  split at hread
  · next hcaret => exact .inr (.inr (.inl ⟨hcaret, (Except.ok.inj hread).symm⟩))
  split at hread
  · next hnumber => exact .inr (.inr (.inr (.inl ⟨hnumber, hread⟩)))
  split at hread
  · next hsuperscript => exact .inr (.inr (.inr (.inr (.inl ⟨hsuperscript, hread⟩))))
  split at hread
  · next hsymbol =>
    exact .inr (.inr (.inr (.inr (.inr ⟨hsymbol, (Except.ok.inj hread).symm⟩))))
  · cases hread

/-- No lexeme is an end of input. -/
theorem lexeme_kind_ne_finish {ending : Option Utf8.Fault} {first : Nat} {rest : List Nat}
    {read : Lexeme} (hread : lexeme ending first rest = .ok read) : read.kind ≠ .finish := by
  rcases lexeme_cases hread with ⟨_, rfl⟩ | ⟨_, rfl⟩ | ⟨_, rfl⟩ | ⟨_, hnumber⟩ |
    ⟨_, hsuperscript⟩ | ⟨_, rfl⟩
  · simp
  · simp
  · simp
  · obtain ⟨value, integer, hkind⟩ := number_kind hnumber
    simp [hkind]
  · obtain ⟨exponent, hkind⟩ := superscript_kind hsuperscript
    simp [hkind]
  · simp

/-- A symbol goes on as long as it can. -/
theorem symbol_of_lexeme {ending : Option Utf8.Fault} {first : Nat} {rest : List Nat}
    {read : Lexeme} (hread : lexeme ending first rest = .ok read) (hkind : read.kind = .symbol) :
    isSymbol first = true ∧
      read = ⟨.symbol, first :: rest.takeWhile isSymbol, rest.dropWhile isSymbol⟩ := by
  rcases lexeme_cases hread with ⟨_, rfl⟩ | ⟨_, rfl⟩ | ⟨_, rfl⟩ | ⟨_, hnumber⟩ |
    ⟨_, hsuperscript⟩ | hsymbol
  · cases hkind
  · cases hkind
  · cases hkind
  · obtain ⟨value, integer, hnumber⟩ := number_kind hnumber
    cases hnumber.symm.trans hkind
  · obtain ⟨exponent, hsuperscript⟩ := superscript_kind hsuperscript
    cases hsuperscript.symm.trans hkind
  · exact hsymbol

/-- A number is read where one starts. -/
theorem number_of_lexeme {ending : Option Utf8.Fault} {first : Nat} {rest : List Nat}
    {read : Lexeme} (hread : lexeme ending first rest = .ok read) {value : Float}
    {integer : Option Int} (hkind : read.kind = .number value integer) :
    startsNumber first = true ∧ number (first :: rest) = .ok read := by
  rcases lexeme_cases hread with ⟨_, rfl⟩ | ⟨_, rfl⟩ | ⟨_, rfl⟩ | hnumber | ⟨_, hsuperscript⟩ |
    ⟨_, rfl⟩
  · cases hkind
  · cases hkind
  · cases hkind
  · exact hnumber
  · obtain ⟨exponent, hsuperscript⟩ := superscript_kind hsuperscript
    cases hsuperscript.symm.trans hkind
  · cases hkind

/-- A symbol consists of the characters of symbols. -/
theorem isSymbol_of_lexeme {ending : Option Utf8.Fault} {first : Nat} {rest : List Nat}
    {read : Lexeme} (hread : lexeme ending first rest = .ok read) (hkind : read.kind = .symbol) :
    ∀ code ∈ read.codes, isSymbol code = true := by
  obtain ⟨hfirst, rfl⟩ := symbol_of_lexeme hread hkind
  intro code hcode
  rcases List.mem_cons.mp hcode with rfl | hmem
  · exact hfirst
  · exact List.all_eq_true.mp List.all_takeWhile code hmem

/-! ### Reading one token after another -/

/-- Tokens are read one after another, and blanks are skipped. -/
theorem tokens_cons_of_lexeme {ending : Option Utf8.Fault} {position first : Nat} {spaced : Bool}
    {rest : List Nat} {result : Lexeme} (hblank : isBlank first = false)
    (hread : lexeme ending first rest = .ok result) :
    tokens ending position spaced (first :: rest) =
      (tokens ending (position + Utf8.sizeAll result.codes) false result.rest).map
        (⟨result.kind, Utf8.encodeAll result.codes, position, spaced⟩ :: ·) := by
  rw [tokens, if_neg (by simp [hblank])]
  split
  · next hother =>
    rw [hread] at hother
    cases hother
  · next hother =>
    rw [hread] at hother
    cases hother
    rfl

theorem tokens_cons_of_failure {ending : Option Utf8.Fault} {position first : Nat} {spaced : Bool}
    {rest : List Nat} {failure : Failure} (hblank : ¬ isBlank first = true)
    (hread : lexeme ending first rest = .error failure) :
    tokens ending position spaced (first :: rest) =
      .error ⟨failure.fault, position + failure.offset⟩ := by
  rw [tokens, if_neg hblank]
  split
  · next hother =>
    rw [hread] at hother
    cases hother
    rfl
  · next hother =>
    rw [hread] at hother
    cases hother

/-- Reading of code points that no fault ends, one token after another. -/
inductive Reads : Nat → Bool → List Nat → List Token → Prop
  | finish (position : Nat) (spaced : Bool) :
      Reads position spaced [] [⟨.finish, [], position, spaced⟩]
  | blank {position first : Nat} {spaced : Bool} {rest : List Nat} {result : List Token}
      (hblank : isBlank first = true)
      (hrest : Reads (position + Utf8.size first) true rest result) :
      Reads position spaced (first :: rest) result
  | lexeme {position first : Nat} {spaced : Bool} {rest : List Nat} {read : Lexeme}
      {others : List Token} (hblank : isBlank first = false)
      (hread : lexeme none first rest = .ok read)
      (hrest : Reads (position + Utf8.sizeAll read.codes) false read.rest others) :
      Reads position spaced (first :: rest)
        (⟨read.kind, Utf8.encodeAll read.codes, position, spaced⟩ :: others)

theorem reads_of_tokens {position : Nat} {spaced : Bool} {codes : List Nat} {result : List Token}
    (hread : tokens none position spaced codes = .ok result) :
    Reads position spaced codes result := by
  induction position, spaced, codes using tokens.induct none generalizing result with
  | case1 position spaced _ =>
    rw [tokens] at hread
    cases hread
    exact .finish position spaced
  | case2 position spaced fault hending => cases hending
  | case3 position spaced first rest hblank ih =>
    rw [tokens, if_pos hblank] at hread
    exact .blank hblank (ih hread)
  | case4 position spaced first rest hblank failure hfailure =>
    rw [tokens_cons_of_failure hblank hfailure] at hread
    cases hread
  | case5 position spaced first rest hblank read hlexeme ih =>
    have hvisible : isBlank first = false := by simpa using hblank
    rw [tokens_cons_of_lexeme hvisible hlexeme, Fallible.map_eq_ok_iff] at hread
    obtain ⟨others, hothers, rfl⟩ := hread
    exact .lexeme hvisible hlexeme (ih hothers)

/-- Code points with a fault behind them have no tokens. -/
theorem tokens_fault_ne_ok {fault : Utf8.Fault} {position : Nat} {spaced : Bool}
    {codes : List Nat} {result : List Token} :
    tokens (some fault) position spaced codes ≠ .ok result := by
  intro hread
  induction position, spaced, codes using tokens.induct (some fault) generalizing result with
  | case1 position spaced hending => cases hending
  | case2 position spaced =>
    rw [tokens] at hread
    cases hread
  | case3 position spaced first rest hblank ih =>
    rw [tokens, if_pos hblank] at hread
    exact ih hread
  | case4 position spaced first rest hblank failure hfailure =>
    rw [tokens_cons_of_failure hblank hfailure] at hread
    cases hread
  | case5 position spaced first rest hblank read hlexeme ih =>
    rw [tokens_cons_of_lexeme (by simpa using hblank) hlexeme, Fallible.map_eq_ok_iff] at hread
    obtain ⟨others, hothers, _⟩ := hread
    exact ih hothers

namespace Reads

variable {position : Nat} {spaced : Bool} {codes : List Nat} {result : List Token}

theorem tokens_eq_ok (hreads : Reads position spaced codes result) :
    tokens none position spaced codes = .ok result := by
  induction hreads with
  | finish position spaced => rw [tokens]
  | blank hblank _ ih => rw [tokens, if_pos hblank, ih]
  | lexeme hblank hread _ ih => rw [tokens_cons_of_lexeme hblank hread, ih]; rfl

/-- The tokens end with the only end of input among them. -/
theorem eq_append_finish (hreads : Reads position spaced codes result) :
    ∃ body final, result = body ++ [final] ∧ final.kind = .finish ∧
      ∀ token ∈ body, token.kind ≠ .finish := by
  induction hreads with
  | finish position spaced => exact ⟨[], _, rfl, rfl, by simp⟩
  | blank _ _ ih => exact ih
  | lexeme _ hread _ ih =>
    obtain ⟨body, final, rfl, hfinal, hbody⟩ := ih
    refine ⟨_ :: body, final, rfl, hfinal, fun token htoken ↦ ?_⟩
    rcases List.mem_cons.mp htoken with rfl | hmem
    · exact lexeme_kind_ne_finish hread
    · exact hbody token hmem

/-- The text of a symbol is that of some of the code points, which are characters of symbols. -/
theorem exists_letters (hreads : Reads position spaced codes result) {token : Token}
    (htoken : token ∈ result) (hkind : token.kind = .symbol) :
    ∃ letters, token.text = Utf8.encodeAll letters ∧ letters ≠ [] ∧
      (∀ code ∈ letters, isSymbol code = true) ∧ ∀ code ∈ letters, code ∈ codes := by
  induction hreads with
  | finish position spaced =>
    rw [List.mem_singleton.mp htoken] at hkind
    cases hkind
  | blank _ _ ih =>
    obtain ⟨letters, htext, hsome, hsymbols, hmem⟩ := ih htoken
    exact ⟨letters, htext, hsome, hsymbols,
      fun code hcode ↦ List.mem_cons_of_mem _ (hmem code hcode)⟩
  | @lexeme _ _ _ _ read _ _ hread _ ih =>
    rw [← (lexeme_codes hread).1]
    rcases List.mem_cons.mp htoken with rfl | hrest
    · exact ⟨read.codes, rfl, (lexeme_codes hread).2, isSymbol_of_lexeme hread hkind,
        fun code hcode ↦ List.mem_append_left _ hcode⟩
    · obtain ⟨letters, htext, hsome, hsymbols, hmem⟩ := ih hrest
      exact ⟨letters, htext, hsome, hsymbols,
        fun code hcode ↦ List.mem_append_right _ (hmem code hcode)⟩

end Reads

/-! ### Texts that are one symbol -/

theorem isBlank_of_isSymbol {code : Nat} (hsymbol : isSymbol code = true) :
    isBlank code = false := by
  unfold isSymbol at hsymbol
  split at hsymbol
  · simp [isBlank] at hsymbol ⊢
    omega
  · simp only [Bool.not_eq_true', Bool.or_eq_false_iff] at hsymbol
    exact hsymbol.1.1.1

/-- A symbol takes all characters of symbols that follow. -/
theorem lexeme_of_isSymbol {ending : Option Utf8.Fault} {first : Nat} {rest : List Nat}
    (hsymbol : isSymbol first = true) : lexeme ending first rest =
      .ok ⟨.symbol, first :: rest.takeWhile isSymbol, rest.dropWhile isSymbol⟩ := by
  have hother : isTimes first = false ∧ first ≠ 47 ∧ first ≠ 94 ∧ startsNumber first = false ∧
      isSuperscriptDigit first = false ∧ isSuperscriptSign first = false := by
    unfold isSymbol at hsymbol
    split at hsymbol
    · simp [isTimes, startsNumber, isDigit, isSuperscriptDigit, superscriptDigits,
        isSuperscriptSign, superscriptSign] at hsymbol ⊢
      omega
    · simp only [Bool.not_eq_true', Bool.or_eq_false_iff] at hsymbol
      simp [hsymbol, startsNumber, isDigit]
      omega
  obtain ⟨htimes, hdivide, hcaret, hnumber, hdigit, hsign⟩ := hother
  simp [lexeme, htimes, hdivide, hcaret, hnumber, hdigit, hsign, hsymbol]

theorem isBlank_of_startsNumber {code : Nat} (hstarts : startsNumber code = true) :
    isBlank code = false := by
  simp [startsNumber, isDigit, isBlank] at hstarts ⊢
  omega

theorem lexeme_of_startsNumber {ending : Option Utf8.Fault} {first : Nat} {rest : List Nat}
    (hstarts : startsNumber first = true) :
    lexeme ending first rest = number (first :: rest) := by
  have hother : isTimes first = false ∧ first ≠ 47 ∧ first ≠ 94 := by
    simp [startsNumber, isDigit, isTimes] at hstarts ⊢
    omega
  obtain ⟨htimes, hdivide, hcaret⟩ := hother
  simp [lexeme, htimes, hdivide, hcaret, hstarts]

/-- A written integer starts as numbers do. -/
theorem exists_codes_ofInt (integer : Int) :
    ∃ first behind, (Numeral.ofInt integer).codes = first :: behind ∧
      startsNumber first = true := by
  obtain ⟨digit, others, hdigits⟩ :=
    List.exists_cons_of_ne_nil (Decimal.digits_ne_nil integer.natAbs)
  have hlt : digit < 10 := Decimal.lt_ten_of_mem_digits (hdigits ▸ List.mem_cons_self)
  rw [Numeral.codes, Mantissa.codes, Numeral.ofInt, hdigits]
  by_cases hnegative : integer < 0
  · rw [if_pos hnegative]
    exact ⟨45, _, rfl, rfl⟩
  · rw [if_neg hnegative]
    exact ⟨digitCode digit, _, rfl, by rw [startsNumber, Numeral.isDigit_digitCode hlt]; rfl⟩

namespace Reads

/-- Characters of a symbol are read as one token, up to a character of another kind. -/
theorem symbol_append {position : Nat} {spaced : Bool} {codes rest : List Nat}
    {others : List Token} (hsome : codes ≠ [])
    (hcodes : ∀ code ∈ codes, isSymbol code = true)
    (hrest : ∀ code ∈ rest.head?, isSymbol code = false)
    (hreads : Reads (position + Utf8.sizeAll codes) false rest others) :
    Reads position spaced (codes ++ rest)
      (⟨.symbol, Utf8.encodeAll codes, position, spaced⟩ :: others) := by
  obtain ⟨first, behind, rfl⟩ := List.exists_cons_of_ne_nil hsome
  have hfirst := hcodes first (by simp)
  have hbehind : ∀ code ∈ behind, isSymbol code = true :=
    fun code hcode ↦ hcodes code (List.mem_cons_of_mem first hcode)
  have htaken : rest.takeWhile isSymbol = [] ∧ rest.dropWhile isSymbol = rest := by
    cases rest with
    | nil => exact ⟨rfl, rfl⟩
    | cons code rest => simp [hrest code rfl]
  have hlexeme : Lexer.lexeme none first (behind ++ rest) =
      .ok ⟨.symbol, first :: behind, rest⟩ := by
    rw [lexeme_of_isSymbol hfirst, List.takeWhile_append_of_pos hbehind,
      List.dropWhile_append_of_pos hbehind, htaken.1, htaken.2, List.append_nil]
  exact .lexeme (isBlank_of_isSymbol hfirst) hlexeme hreads

theorem caret_cons {position : Nat} {spaced : Bool} {rest : List Nat} {others : List Token}
    (hreads : Reads (position + Utf8.sizeAll [94]) false rest others) :
    Reads position spaced (94 :: rest)
      (⟨.caret, Utf8.encodeAll [94], position, spaced⟩ :: others) :=
  @lexeme position 94 spaced rest ⟨.caret, [94], rest⟩ others rfl rfl hreads

/-- A written integer is read as one token, up to a character that cannot go on with it. -/
theorem integer_append {position : Nat} {spaced : Bool} {integer : Int} {rest : List Nat}
    {others : List Token} (hlt : integer.natAbs < Nat.pow 2 53) (hrest : Numeral.EndsInteger rest)
    (hreads : Reads (position + Utf8.sizeAll (Numeral.ofInt integer).codes) false rest others) :
    Reads position spaced ((Numeral.ofInt integer).codes ++ rest)
      (⟨.number (Numeral.ofInt integer).convert.value (some integer),
        Utf8.encodeAll (Numeral.ofInt integer).codes, position, spaced⟩ :: others) := by
  have hpoint : rest.head? ≠ some 46 := fun hhead ↦ (hrest 46 hhead).2.1 rfl
  have hnumber : number ((Numeral.ofInt integer).codes ++ rest) =
      .ok ⟨.number (Numeral.ofInt integer).convert.value (some integer),
        (Numeral.ofInt integer).codes, rest⟩ := by
    rw [number, Numeral.scan_ofInt_append hrest]
    simp only [if_neg hpoint, if_pos (Numeral.inRange_convert_ofInt hlt),
      Numeral.integer?_ofInt]
  obtain ⟨first, behind, hcodes, hstarts⟩ := exists_codes_ofInt integer
  rw [hcodes] at hreads
  rw [hcodes, List.cons_append] at hnumber ⊢
  exact .lexeme (isBlank_of_startsNumber hstarts)
    ((lexeme_of_startsNumber hstarts).trans hnumber) hreads

end Reads

end Lexer

namespace Token

/-- The tokens of a text are read from its code points, which no fault ends. -/
theorem ofText_eq_ok_iff {text : Text} {tokens : List Token} :
    ofText text = .ok tokens ↔
      ∃ codes, Utf8.decodeAll text = (codes, none) ∧ Lexer.Reads 0 false codes tokens := by
  rw [ofText]
  cases hdecode : Utf8.decodeAll text with
  | mk codes ending =>
    rw [Fallible.mapError_eq_ok_iff]
    constructor
    · intro hread
      cases ending with
      | some fault => exact absurd hread Lexer.tokens_fault_ne_ok
      | none => exact ⟨codes, rfl, Lexer.reads_of_tokens hread⟩
    · rintro ⟨others, heq, hreads⟩
      cases heq
      exact hreads.tokens_eq_ok

/-- The tokens of a text end with the only end of input among them. -/
theorem eq_append_finish_of_ofText {text : Text} {tokens : List Token}
    (hread : ofText text = .ok tokens) :
    ∃ body final, tokens = body ++ [final] ∧ final.kind = .finish ∧
      ∀ token ∈ body, token.kind ≠ .finish := by
  obtain ⟨_, _, hreads⟩ := ofText_eq_ok_iff.mp hread
  exact hreads.eq_append_finish

/-- The text as a whole is one symbol. -/
def IsSymbol (text : Text) : Prop :=
  ∃ token final, ofText text = .ok [token, final] ∧ token.kind = .symbol ∧ token.text = text

/-- The text of a symbol among tokens consists of the characters of symbols. -/
theorem exists_codes_of_mem {text : Text} {tokens : List Token} (hread : ofText text = .ok tokens)
    {token : Token} (htoken : token ∈ tokens) (hkind : token.kind = .symbol) :
    ∃ codes, Utf8.decodeAll token.text = (codes, none) ∧ codes ≠ [] ∧
      ∀ code ∈ codes, Lexer.isSymbol code = true := by
  obtain ⟨codes, hdecode, hreads⟩ := ofText_eq_ok_iff.mp hread
  obtain ⟨letters, htext, hsome, hsymbols, hletters⟩ := hreads.exists_letters htoken hkind
  have hcodes := Utf8.lt_of_decodeAll hdecode
  refine ⟨letters, ?_, hsome, hsymbols⟩
  rw [htext, Utf8.decodeAll_encodeAll fun code hcode ↦ hcodes code (hletters code hcode)]

/-- The texts that are one symbol are those of the characters of symbols. -/
theorem isSymbol_iff {text : Text} :
    IsSymbol text ↔ ∃ codes, Utf8.decodeAll text = (codes, none) ∧ codes ≠ [] ∧
      ∀ code ∈ codes, Lexer.isSymbol code = true := by
  constructor
  · rintro ⟨token, final, htokens, hkind, htext⟩
    exact htext ▸ exists_codes_of_mem htokens (by simp) hkind
  · rintro ⟨codes, hdecode, hsome, hsymbols⟩
    have hreads := @Lexer.Reads.symbol_append 0 false codes [] _ hsome hsymbols (by simp)
      (.finish _ false)
    rw [List.append_nil] at hreads
    exact ⟨_, _, ofText_eq_ok_iff.mpr ⟨codes, hdecode, hreads⟩, rfl,
      Utf8.encodeAll_of_decodeAll hdecode⟩

/-- A symbol among the tokens of a text would be one on its own as well. -/
theorem isSymbol_of_mem {text : Text} {tokens : List Token} (hread : ofText text = .ok tokens)
    {token : Token} (htoken : token ∈ tokens) (hkind : token.kind = .symbol) :
    IsSymbol token.text :=
  isSymbol_iff.mpr (exists_codes_of_mem hread htoken hkind)

end Token

/-! ### Texts in front of others -/

namespace Lexer

/-- The code points of a text are read, from any place on, as tokens with a property. -/
def ReadsAs (text : Text) (spaced : Bool) (property : List Token → Prop) : Prop :=
  ∃ codes, Utf8.decodeAll text = (codes, none) ∧
    ∀ position, ∃ tokens, Reads position spaced codes tokens ∧ property tokens

namespace ReadsAs

variable {text : Text} {spaced : Bool} {property : List Token → Prop}

theorem imp {other : List Token → Prop} (hreads : ReadsAs text spaced property)
    (himp : ∀ tokens, property tokens → other tokens) : ReadsAs text spaced other := by
  obtain ⟨codes, hcodes, hall⟩ := hreads
  refine ⟨codes, hcodes, fun position ↦ ?_⟩
  obtain ⟨tokens, htokens, hproperty⟩ := hall position
  exact ⟨tokens, htokens, himp tokens hproperty⟩

theorem exists_ofText (hreads : ReadsAs text false property) :
    ∃ tokens, Token.ofText text = .ok tokens ∧ property tokens := by
  obtain ⟨codes, hcodes, hall⟩ := hreads
  obtain ⟨tokens, htokens, hproperty⟩ := hall 0
  exact ⟨tokens, Token.ofText_eq_ok_iff.mpr ⟨codes, hcodes, htokens⟩, hproperty⟩

/-- The empty text is read as the end of input. -/
theorem nil : ReadsAs [] spaced fun tokens ↦ ∃ final, tokens = [final] ∧ final.kind = .finish :=
  ⟨[], by rw [Utf8.decodeAll], fun position ↦ ⟨_, .finish position spaced, _, rfl, rfl⟩⟩

theorem blank_cons (hreads : ReadsAs text true property) :
    ReadsAs (32 :: text) spaced property := by
  obtain ⟨codes, hcodes, hall⟩ := hreads
  refine ⟨32 :: codes, ?_, fun position ↦ ?_⟩
  · rw [Utf8.decodeAll_cons_ascii (by decide), hcodes]
    rfl
  · obtain ⟨tokens, htokens, hproperty⟩ := hall (position + Utf8.size 32)
    exact ⟨tokens, .blank rfl htokens, hproperty⟩

theorem caret_cons (hreads : ReadsAs text false property) :
    ReadsAs (94 :: text) spaced fun tokens ↦
      ∃ caret others, tokens = caret :: others ∧ caret.kind = .caret ∧ property others := by
  obtain ⟨codes, hcodes, hall⟩ := hreads
  refine ⟨94 :: codes, ?_, fun position ↦ ?_⟩
  · rw [Utf8.decodeAll_cons_ascii (by decide), hcodes]
    rfl
  · obtain ⟨others, hothers, hproperty⟩ := hall (position + Utf8.sizeAll [94])
    exact ⟨_, hothers.caret_cons, _, others, rfl, rfl, hproperty⟩

theorem symbol_append {symbol : Text} (hsymbol : Token.IsSymbol symbol)
    (hend : ∀ byte ∈ text.head?, byte = 32 ∨ byte = 94) (hreads : ReadsAs text false property) :
    ReadsAs (symbol ++ text) spaced fun tokens ↦
      ∃ token others, tokens = token :: others ∧ token.kind = .symbol ∧ token.text = symbol ∧
        token.spaced = spaced ∧ property others := by
  obtain ⟨codes, hcodes, hall⟩ := hreads
  obtain ⟨letters, hletters, hsome, hsymbols⟩ := Token.isSymbol_iff.mp hsymbol
  refine ⟨letters ++ codes, ?_, fun position ↦ ?_⟩
  · rw [Utf8.decodeAll_append text hletters, hcodes]
  · obtain ⟨others, hothers, hproperty⟩ := hall (position + Utf8.sizeAll letters)
    have hother : ∀ code ∈ codes.head?, isSymbol code = false := by
      refine Utf8.head_decodeAll hcodes fun byte hbyte ↦ ?_
      rcases hend byte hbyte with rfl | rfl
      · decide
      · decide
    exact ⟨_, Reads.symbol_append hsome hsymbols hother hothers, _, others, rfl, rfl,
      Utf8.encodeAll_of_decodeAll hletters, rfl, hproperty⟩

theorem integer_append {integer : Int} (hlt : integer.natAbs < Nat.pow 2 53)
    (hend : ∀ byte ∈ text.head?, byte = 32) (hreads : ReadsAs text false property) :
    ReadsAs (Decimal.ofInt integer ++ text) spaced fun tokens ↦
      ∃ number value others, tokens = number :: others ∧
        number.kind = .number value (some integer) ∧ property others := by
  obtain ⟨codes, hcodes, hall⟩ := hreads
  refine ⟨(Numeral.ofInt integer).codes ++ codes, ?_, fun position ↦ ?_⟩
  · rw [Utf8.decodeAll_append text (Numeral.decodeAll_ofInt integer), hcodes]
  · obtain ⟨others, hothers, hproperty⟩ :=
      hall (position + Utf8.sizeAll (Numeral.ofInt integer).codes)
    have hother : Numeral.EndsInteger codes := by
      refine Utf8.head_decodeAll hcodes fun byte hbyte ↦ ?_
      rw [hend byte hbyte]
      decide
    exact ⟨_, Reads.integer_append hlt hother hothers, _, _, others, rfl, rfl, hproperty⟩

end ReadsAs

end Lexer

end Metrology
