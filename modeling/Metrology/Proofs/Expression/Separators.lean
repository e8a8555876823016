import Metrology.Proofs.Expression.Layout

/-!
# Reading across separators

A blank or an operator ends every lexeme: no character of a number, a symbol or an exponent in
superscripts, and nothing that these look for behind them, is one. What stands before a separator is
therefore read as if the text ended there, successfully or not (`Lexer.lexeme_append`). A character
of an exponent in superscripts ends every lexeme right behind a symbol
(`Lexer.endsLexemes_of_isRaised`). Reading a text with such a character in it is reading what is
before it and then the rest (`Reads.tokens_append` and `Reads.split_of_endsLexemes`).
-/

set_option autoImplicit false
set_option relaxedAutoImplicit false

namespace Metrology.Lexer

/-! ### Separators -/

/-- The kind of the token that an operator is. -/
def operatorKind? (code : Nat) : Option TokenKind :=
  if isTimes code then some .times
  else if code = 47 then some .divide
  else if code = 94 then some .caret
  else none

/-- The characters that end every lexeme: blanks and operators. -/
def separates (code : Nat) : Bool :=
  isBlank code || (operatorKind? code).isSome

/-- The blanks and the operators. -/
def separators : List Nat :=
  [32, 9, 13, 10, 0xA0, 42, 0xB7, 0x22C5, 0xD7, 47, 94]

theorem separates_of_isBlank {code : Nat} (hblank : isBlank code = true) :
    separates code = true := by
  rw [separates, hblank, Bool.true_or]

theorem separates_of_operatorKind? {code : Nat} {kind : TokenKind}
    (hkind : operatorKind? code = some kind) : separates code = true := by
  rw [separates, hkind, Option.isSome_some, Bool.or_true]

theorem mem_separators {code : Nat} (hcode : separates code = true) : code ∈ separators := by
  rw [separates, Bool.or_eq_true] at hcode
  rcases hcode with hblank | hoperator
  · simp only [isBlank, Bool.or_eq_true, beq_iff_eq] at hblank
    rcases hblank with (((rfl | rfl) | rfl) | rfl) | rfl <;> decide
  · unfold operatorKind? at hoperator
    split at hoperator
    · next htimes =>
      simp only [isTimes, Bool.or_eq_true, beq_iff_eq] at htimes
      rcases htimes with ((rfl | rfl) | rfl) | rfl <;> decide
    split at hoperator
    · next hdivide => rw [hdivide]; decide
    split at hoperator
    · next hcaret => rw [hcaret]; decide
    · cases hoperator

theorem isBlank_of_operatorKind? {code : Nat} {kind : TokenKind}
    (hkind : operatorKind? code = some kind) : isBlank code = false := by
  have hsome := (by decide : ∀ other ∈ separators,
    isBlank other = true → operatorKind? other = none) code
      (mem_separators (separates_of_operatorKind? hkind))
  rw [← Bool.not_eq_true]
  intro hblank
  rw [hsome hblank] at hkind
  cases hkind

theorem lexeme_of_operatorKind? {ending : Option Utf8.Fault} {code : Nat} {rest : List Nat}
    {kind : TokenKind} (hkind : operatorKind? code = some kind) :
    lexeme ending code rest = .ok ⟨kind, [code], rest⟩ := by
  unfold operatorKind? at hkind
  unfold lexeme
  split at hkind
  · next htimes => cases hkind; rw [if_pos htimes]
  split at hkind
  · next htimes hdivide => cases hkind; rw [if_neg htimes, if_pos hdivide]
  split at hkind
  · next htimes hdivide hcaret =>
    cases hkind
    rw [if_neg htimes, if_neg hdivide, if_pos hcaret]
  · cases hkind

/-- An operator is read from one code point. -/
theorem operatorKind?_of_lexeme {ending : Option Utf8.Fault} {first : Nat} {rest : List Nat}
    {read : Lexeme} (hread : lexeme ending first rest = .ok read)
    (hkind : read.kind = .times ∨ read.kind = .divide ∨ read.kind = .caret) :
    operatorKind? first = some read.kind ∧ read.codes = [first] := by
  rcases lexeme_cases hread with ⟨htimes, rfl⟩ | ⟨rfl, rfl⟩ | ⟨rfl, rfl⟩ | ⟨_, hnumber⟩ |
    ⟨_, hsuperscript⟩ | ⟨_, rfl⟩
  · exact ⟨if_pos htimes, rfl⟩
  · exact ⟨rfl, rfl⟩
  · exact ⟨rfl, rfl⟩
  · obtain ⟨value, integer, hnumber⟩ := number_kind hnumber
    simp [hnumber] at hkind
  · obtain ⟨exponent, hsuperscript⟩ := superscript_kind hsuperscript
    simp [hsuperscript] at hkind
  · simp at hkind

/-- What no number goes on with. -/
structure EndsNumber (code : Nat) : Prop where
  digit : isDigit code = false
  point : code ≠ 46
  plus : code ≠ Sign.plus.code
  minus : code ≠ Sign.minus.code
  letter : ¬ (code = ExponentPart.letter true ∨ code = ExponentPart.letter false)

/-- What a separator is not: a part of a number, of a symbol or of an exponent. -/
structure IsOther (code : Nat) : Prop extends EndsNumber code where
  superscriptDigit : isSuperscriptDigit code = false
  superscriptPlus : code ≠ superscriptSign .plus
  superscriptMinus : code ≠ superscriptSign .minus
  symbol : isSymbol code = false

theorem isOther_of_separates {code : Nat} (hcode : separates code = true) : IsOther code where
  digit := (by decide : ∀ other ∈ separators, isDigit other = false) code (mem_separators hcode)
  point := (by decide : ∀ other ∈ separators, other ≠ 46) code (mem_separators hcode)
  plus := (by decide : ∀ other ∈ separators, other ≠ Sign.plus.code) code (mem_separators hcode)
  minus := (by decide : ∀ other ∈ separators, other ≠ Sign.minus.code) code (mem_separators hcode)
  letter := (by decide : ∀ other ∈ separators, ¬ (other = ExponentPart.letter true ∨
    other = ExponentPart.letter false)) code (mem_separators hcode)
  superscriptDigit := (by decide : ∀ other ∈ separators, isSuperscriptDigit other = false) code
    (mem_separators hcode)
  superscriptPlus := (by decide : ∀ other ∈ separators, other ≠ superscriptSign .plus) code
    (mem_separators hcode)
  superscriptMinus := (by decide : ∀ other ∈ separators, other ≠ superscriptSign .minus) code
    (mem_separators hcode)
  symbol := (by decide : ∀ other ∈ separators, isSymbol other = false) code (mem_separators hcode)

/-! ### Scanning stops at a separator -/

theorem takeWhile_append_cons {property : Nat → Bool} {code : Nat} (hcode : property code = false)
    (codes after : List Nat) :
    (codes ++ code :: after).takeWhile property = codes.takeWhile property := by
  induction codes with
  | nil => rw [List.nil_append, List.takeWhile_cons_of_neg (by simp [hcode]), List.takeWhile_nil]
  | cons first rest ih => rw [List.cons_append, List.takeWhile_cons, List.takeWhile_cons, ih]

theorem dropWhile_append_cons {property : Nat → Bool} {code : Nat} (hcode : property code = false)
    (codes after : List Nat) :
    (codes ++ code :: after).dropWhile property = codes.dropWhile property ++ code :: after := by
  induction codes with
  | nil => rw [List.nil_append, List.dropWhile_cons_of_neg (by simp [hcode]), List.dropWhile_nil,
      List.nil_append]
  | cons first rest ih =>
    rw [List.cons_append, List.dropWhile_cons, List.dropWhile_cons, ih]
    split <;> rfl

/-- A lexeme with further code points behind it. -/
def Lexeme.followedBy (lexeme : Lexeme) (after : List Nat) : Lexeme :=
  { lexeme with rest := lexeme.rest ++ after }

section

variable {code : Nat} (hends : EndsNumber code) (codes after : List Nat)

include hends

theorem scanSign_append_cons : Sign.scan (codes ++ code :: after) =
    ((Sign.scan codes).1, (Sign.scan codes).2 ++ code :: after) := by
  cases codes with
  | nil =>
    show (if code = Sign.plus.code then _ else if code = Sign.minus.code then _ else _) = _
    rw [if_neg hends.plus, if_neg hends.minus]
    rfl
  | cons first rest =>
    rw [List.cons_append, Sign.scan, Sign.scan]
    split
    · rfl
    · split <;> rfl

theorem scanDigits_append_cons : scanDigits (codes ++ code :: after) =
    ((scanDigits codes).1, (scanDigits codes).2 ++ code :: after) := by
  rw [scanDigits, takeWhile_append_cons hends.digit, dropWhile_append_cons hends.digit]
  rfl

theorem scanFraction_append_cons : Mantissa.scanFraction (codes ++ code :: after) =
    ((Mantissa.scanFraction codes).1, (Mantissa.scanFraction codes).2 ++ code :: after) := by
  cases codes with
  | nil => exact if_neg hends.point
  | cons first rest =>
    rw [List.cons_append, Mantissa.scanFraction, Mantissa.scanFraction,
      scanDigits_append_cons hends]
    split <;> rfl

theorem scanMantissa_append_cons : Mantissa.scan (codes ++ code :: after) =
    ((Mantissa.scan codes).1, (Mantissa.scan codes).2 ++ code :: after) := by
  simp only [Mantissa.scan, scanSign_append_cons hends, scanDigits_append_cons hends,
    scanFraction_append_cons hends]

theorem scanExponent_append_cons : ExponentPart.scan (codes ++ code :: after) =
    ((ExponentPart.scan codes).1, (ExponentPart.scan codes).2 ++ code :: after) := by
  cases codes with
  | nil => exact if_neg hends.letter
  | cons first rest =>
    rw [List.cons_append, ExponentPart.scan, ExponentPart.scan, scanSign_append_cons hends]
    simp only [scanDigits_append_cons hends]
    split
    · cases scanDigits (Sign.scan rest).2 with
      | mk digits behind => cases digits <;> rfl
    · rfl

theorem scanNumeral_append_cons : Numeral.scan (codes ++ code :: after) =
    (Numeral.scan codes).map fun (numeral, rest) ↦ (numeral, rest ++ code :: after) := by
  simp only [Numeral.scan, scanMantissa_append_cons hends, scanExponent_append_cons hends]
  split <;> rfl

theorem number_append : number (codes ++ code :: after) =
    (number codes).map (·.followedBy (code :: after)) := by
  unfold number
  rw [scanNumeral_append_cons hends, scanMantissa_append_cons hends]
  cases hscan : Numeral.scan codes with
  | none => rfl
  | some read =>
    obtain ⟨numeral, rest⟩ := read
    have hpoint : (rest ++ code :: after).head? = some 46 ↔ rest.head? = some 46 := by
      cases rest with
      | nil => simp [hends.point]
      | cons first rest => rfl
    simp only [Option.map_some, hpoint]
    split
    · rfl
    · split <;> rfl

end

/-! ### Lexemes end at a separator -/

theorem scanSuperscriptSign_append_cons {code : Nat} (hother : IsOther code)
    (codes after : List Nat) : scanSuperscriptSign (codes ++ code :: after) =
    ((scanSuperscriptSign codes).1, (scanSuperscriptSign codes).2 ++ code :: after) := by
  cases codes with
  | nil =>
    show (if code = superscriptSign .plus then _ else if code = superscriptSign .minus then _
      else _) = _
    rw [if_neg hother.superscriptPlus, if_neg hother.superscriptMinus]
    rfl
  | cons first rest =>
    rw [List.cons_append, scanSuperscriptSign, scanSuperscriptSign]
    split
    · rfl
    · split <;> rfl

section

variable {code : Nat} (hcode : separates code = true) (codes after : List Nat)

include hcode

theorem superscript_append : superscript none (codes ++ code :: after) =
    (superscript none codes).map (·.followedBy (code :: after)) := by
  have hother := isOther_of_separates hcode
  simp only [superscript, scanSuperscriptSign_append_cons hother,
    takeWhile_append_cons hother.superscriptDigit, dropWhile_append_cons hother.superscriptDigit]
  split
  · rfl
  · split
    · cases List.dropWhile isSuperscriptDigit (scanSuperscriptSign codes).2 <;> rfl
    · rfl

/-- What stands before a separator is read as if nothing came behind it. -/
theorem lexeme_append (first : Nat) : lexeme none first (codes ++ code :: after) =
    (lexeme none first codes).map (·.followedBy (code :: after)) := by
  have hsymbol := (isOther_of_separates hcode).symbol
  unfold lexeme
  split
  · rfl
  split
  · rfl
  split
  · rfl
  split
  · exact number_append (isOther_of_separates hcode).toEndsNumber (first :: codes) after
  split
  · exact superscript_append hcode (first :: codes) after
  split
  · rw [takeWhile_append_cons hsymbol, dropWhile_append_cons hsymbol]
    rfl
  · rfl

end

/-! ### What ends every lexeme -/

/-- A code point that ends every lexeme of the code points before it. -/
def EndsLexemes (codes : List Nat) (code : Nat) : Prop :=
  ∀ front first rest after, codes = front ++ first :: rest →
    lexeme none first (rest ++ code :: after) =
      (lexeme none first rest).map (·.followedBy (code :: after))

theorem endsLexemes_of_separates {code : Nat} (hcode : separates code = true) (codes : List Nat) :
    EndsLexemes codes code :=
  fun _ first rest after _ ↦ lexeme_append hcode rest after first

theorem EndsLexemes.of_append {front codes : List Nat} {code : Nat}
    (hends : EndsLexemes (front ++ codes) code) : EndsLexemes codes code := by
  rintro others first rest after rfl
  exact hends (front ++ others) first rest after (by rw [List.append_assoc])

theorem EndsLexemes.of_cons {first code : Nat} {rest : List Nat}
    (hends : EndsLexemes (first :: rest) code) : EndsLexemes rest code :=
  @of_append [first] rest code hends

theorem EndsLexemes.of_lexeme {first code : Nat} {rest : List Nat} {read : Lexeme}
    (hends : EndsLexemes (first :: rest) code) (hread : lexeme none first rest = .ok read) :
    EndsLexemes read.rest code :=
  @of_append read.codes read.rest code ((lexeme_codes hread).1 ▸ hends)

/-- The characters of exponents in superscripts. -/
def isRaised (code : Nat) : Bool :=
  isSuperscriptDigit code || isSuperscriptSign code

/-- The superscript digits and signs. -/
def raisedCodes : List Nat :=
  superscriptSign .plus :: superscriptSign .minus :: superscriptDigits

theorem mem_raisedCodes {code : Nat} (hcode : isRaised code = true) : code ∈ raisedCodes := by
  rw [isRaised, Bool.or_eq_true] at hcode
  rcases hcode with hdigit | hsign
  · exact List.mem_cons_of_mem _ (List.mem_cons_of_mem _ (List.contains_iff_mem.mp hdigit))
  · rw [isSuperscriptSign, Bool.or_eq_true, beq_iff_eq, beq_iff_eq] at hsign
    rcases hsign with rfl | rfl <;> decide

theorem isRaised_of_mem_sign {sign : Option Sign} {code : Nat}
    (hcode : code ∈ (sign.map superscriptSign).toList) : isRaised code = true := by
  rcases sign with _ | _ | _
  · cases hcode
  · rw [List.mem_singleton.mp hcode]
    rfl
  · rw [List.mem_singleton.mp hcode]
    rfl

/-- An exponent in superscripts consists of superscript signs and digits. -/
theorem isRaised_of_superscript {ending : Option Utf8.Fault} {codes : List Nat} {read : Lexeme}
    (hread : superscript ending codes = .ok read) : ∀ code ∈ read.codes, isRaised code = true := by
  simp only [superscript] at hread
  split at hread
  · cases hread
  · split at hread
    · split at hread <;> cases hread
    · cases hread
      intro code hcode
      rcases List.mem_append.mp hcode with hsign | hdigit
      · exact isRaised_of_mem_sign hsign
      · rw [isRaised, List.all_eq_true.mp List.all_takeWhile code hdigit, Bool.true_or]

theorem endsNumber_of_isRaised {code : Nat} (hcode : isRaised code = true) : EndsNumber code where
  digit := (by decide : ∀ other ∈ raisedCodes, isDigit other = false) code (mem_raisedCodes hcode)
  point := (by decide : ∀ other ∈ raisedCodes, other ≠ 46) code (mem_raisedCodes hcode)
  plus := (by decide : ∀ other ∈ raisedCodes, other ≠ Sign.plus.code) code (mem_raisedCodes hcode)
  minus := (by decide : ∀ other ∈ raisedCodes, other ≠ Sign.minus.code) code (mem_raisedCodes hcode)
  letter := (by decide : ∀ other ∈ raisedCodes, ¬ (other = ExponentPart.letter true ∨
    other = ExponentPart.letter false)) code (mem_raisedCodes hcode)

theorem isSymbol_of_isRaised {code : Nat} (hcode : isRaised code = true) : isSymbol code = false :=
  (by decide : ∀ other ∈ raisedCodes, isSymbol other = false) code (mem_raisedCodes hcode)

/-- The last of the code points is a character of symbols. -/
def EndsInSymbol (codes : List Nat) : Prop :=
  ∃ front last, codes = front ++ [last] ∧ isSymbol last = true

theorem EndsInSymbol.of_append {front codes : List Nat} (hcodes : codes ≠ [])
    (hends : EndsInSymbol (front ++ codes)) : EndsInSymbol codes := by
  obtain ⟨before, last, heq, hlast⟩ := hends
  rcases List.eq_nil_or_concat codes with rfl | ⟨others, other, rfl⟩
  · exact absurd rfl hcodes
  · rw [List.concat_eq_append, ← List.append_assoc] at heq
    obtain ⟨_, hother⟩ := List.append_inj' heq rfl
    exact ⟨others, last, by rw [List.concat_eq_append, hother], hlast⟩

/-- An exponent in superscripts ends before a character of symbols. -/
theorem superscript_append_of_endsInSymbol {codes : List Nat} (hends : EndsInSymbol codes)
    (after : List Nat) : superscript none (codes ++ after) =
      (superscript none codes).map (·.followedBy after) := by
  obtain ⟨front, last, rfl, hlast⟩ := hends
  have hraised : isSuperscriptDigit last = false ∧ isSuperscriptSign last = false := by
    rw [← Bool.or_eq_false_iff, ← Bool.not_eq_true]
    intro hraised
    rw [isSymbol_of_isRaised hraised] at hlast
    cases hlast
  -- the sign is no character of symbols, so that the last one stands behind it
  obtain ⟨sign, unsigned, hscan⟩ : ∃ sign unsigned, ∀ others,
      scanSuperscriptSign (front ++ last :: others) = (sign, unsigned ++ last :: others) := by
    cases front with
    | nil =>
      have hother : last ≠ superscriptSign .plus ∧ last ≠ superscriptSign .minus := by
        simpa [isSuperscriptSign] using hraised.2
      exact ⟨none, [], fun others ↦ by simp [scanSuperscriptSign, hother]⟩
    | cons first rest =>
      simp only [List.cons_append, scanSuperscriptSign]
      by_cases hplus : first = superscriptSign .plus
      · exact ⟨some .plus, rest, fun others ↦ if_pos hplus⟩
      by_cases hminus : first = superscriptSign .minus
      · exact ⟨some .minus, rest, fun others ↦ by rw [if_neg hplus, if_pos hminus]⟩
      · exact ⟨none, first :: rest, fun others ↦ by rw [if_neg hplus, if_neg hminus]; rfl⟩
  have hdigits := takeWhile_append_cons hraised.1 unsigned
  have hbehind := dropWhile_append_cons hraised.1 unsigned
  rw [List.append_assoc, List.singleton_append]
  simp only [superscript, hscan, hdigits, hbehind]
  split
  · rfl
  · split
    · cases List.dropWhile isSuperscriptDigit unsigned <;> rfl
    · simp [Except.map, Lexeme.followedBy]

/-- A character of an exponent in superscripts ends every lexeme when it stands right behind a
character of symbols. -/
theorem endsLexemes_of_isRaised {codes : List Nat} {code : Nat} (hcode : isRaised code = true)
    (hends : EndsInSymbol codes) : EndsLexemes codes code := by
  rintro front first rest after rfl
  have hsuffix : EndsInSymbol (first :: rest) := hends.of_append (by simp)
  have hsymbol := isSymbol_of_isRaised hcode
  unfold lexeme
  split
  · rfl
  split
  · rfl
  split
  · rfl
  split
  · exact number_append (endsNumber_of_isRaised hcode) (first :: rest) after
  split
  · exact superscript_append_of_endsInSymbol hsuffix (code :: after)
  split
  · rw [takeWhile_append_cons hsymbol, dropWhile_append_cons hsymbol]
    rfl
  · rfl

/-! ### Texts are read up to the end of a lexeme, and from there on -/

namespace Reads

variable {position code : Nat} {spaced : Bool} {codes after : List Nat}

/-- Behind code points that are read, reading goes on where they end, successfully or not. -/
theorem tokens_append (hends : EndsLexemes codes code) {body : List Token} {final : Token}
    (hreads : Reads position spaced codes (body ++ [final])) :
    tokens none position spaced (codes ++ code :: after) =
      (tokens none final.position final.spaced (code :: after)).map (body ++ ·) := by
  generalize htokens : body ++ [final] = all at hreads
  induction hreads generalizing body with
  | finish position spaced =>
    obtain ⟨rfl, rfl⟩ : body = [] ∧ final = ⟨.finish, [], position, spaced⟩ := by
      rw [← List.nil_append [(⟨.finish, [], position, spaced⟩ : Token)]] at htokens
      obtain ⟨hbody, hfinal⟩ := List.append_inj' htokens rfl
      exact ⟨hbody, (List.cons.inj hfinal).1⟩
    exact (congrFun Except.map_id _).symm
  | blank hblank _ ih => rw [List.cons_append, tokens, if_pos hblank, ih hends.of_cons htokens]
  | @lexeme position first spaced rest read others hblank hread hrest ih =>
    cases body with
    | nil =>
      obtain ⟨next, behind, rfl⟩ := hrest.exists_cons
      cases htokens
    | cons token body =>
      obtain ⟨rfl, hothers⟩ := List.cons.inj htokens
      have hlexeme : Lexer.lexeme none first (rest ++ code :: after) =
          .ok (read.followedBy (code :: after)) := by
        rw [hends [] first rest after rfl, hread]
        rfl
      rw [List.cons_append, tokens_cons_of_lexeme hblank hlexeme]
      show (tokens none (position + Utf8.sizeAll read.codes) false (read.rest ++ code :: after)).map
        (⟨read.kind, Utf8.encodeAll read.codes, position, spaced⟩ :: ·) = _
      rw [ih (hends.of_lexeme hread) hothers, Fallible.map_map]
      rfl

theorem append_of_endsLexemes (hends : EndsLexemes codes code) {body others : List Token}
    {final : Token} (hreads : Reads position spaced codes (body ++ [final]))
    (hafter : Reads final.position final.spaced (code :: after) others) :
    Reads position spaced (codes ++ code :: after) (body ++ others) := by
  refine reads_of_tokens ?_
  rw [hreads.tokens_append hends, hafter.tokens_eq_ok]
  rfl

theorem split_of_endsLexemes (hends : EndsLexemes codes code) {tokens : List Token}
    (hreads : Reads position spaced (codes ++ code :: after) tokens) :
    ∃ body final others, Reads position spaced codes (body ++ [final]) ∧
      Reads final.position final.spaced (code :: after) others ∧ tokens = body ++ others := by
  generalize hall : codes ++ code :: after = all at hreads
  induction hreads generalizing codes with
  | finish => simp at hall
  | @blank position first spaced rest tokens hblank hrest ih =>
    cases codes with
    | nil =>
      cases hall
      exact ⟨[], _, tokens, .finish position spaced, .blank hblank hrest, rfl⟩
    | cons first codes =>
      rw [List.cons_append, List.cons.injEq] at hall
      obtain ⟨rfl, rfl⟩ := hall
      obtain ⟨body, final, others, hbody, hothers, rfl⟩ := ih hends.of_cons rfl
      exact ⟨body, final, others, .blank hblank hbody, hothers, rfl⟩
  | @lexeme position first spaced rest read tokens hblank hread hrest ih =>
    cases codes with
    | nil =>
      cases hall
      exact ⟨[], _, _, .finish position spaced, .lexeme hblank hread hrest, rfl⟩
    | cons first codes =>
      rw [List.cons_append, List.cons.injEq] at hall
      obtain ⟨rfl, rfl⟩ := hall
      rw [hends [] first codes after rfl, Fallible.map_eq_ok_iff] at hread
      obtain ⟨short, hshort, rfl⟩ := hread
      obtain ⟨body, final, others, hbody, hothers, rfl⟩ := ih (hends.of_lexeme hshort) rfl
      exact ⟨_ :: body, final, others, .lexeme hblank hshort hbody, hothers, rfl⟩

end Reads

end Metrology.Lexer
