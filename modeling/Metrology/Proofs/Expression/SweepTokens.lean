import Metrology.Proofs.Expression.SweepNumbers
import Metrology.Proofs.Expression.SweepRounds

/-!
# What a sweep finds: tokens

A sweep reads superscripts and symbols as the lexer does, up to the same character, and stops at the
same fault (`Sweep.agrees_superscript`, `Sweep.agrees_symbol`). Its classes of characters are those
of the lexer, below `0x80` and beyond. A round therefore begins what the lexer reads
(`Sweep.tokensOf_eq_bind_round`), and a sweep over a text comes to the tokens of the text. With the
progress of its rounds, this is how a text is read (`Token.sweep_spec`).
-/

set_option autoImplicit false
set_option relaxedAutoImplicit false

namespace Metrology

namespace Sweep

variable {text : Text} {ending : Option Utf8.Fault} {offset : Nat} {codes : List Nat}

/-! ### Superscripts and symbols -/

/-- What reading up to a rest comes to. Without a rest, a fault stops it. -/
def settle {α : Type} (ending : Option Utf8.Fault) (rest : List Nat) (stop : Nat) (value : α) :
    Except Lexer.Refusal (α × Nat) :=
  match rest, ending with
  | [], some fault => .error ⟨.encoding fault, stop⟩
  | _, _ => .ok (value, stop)

@[simp] theorem settle_cons {α : Type} (first : Nat) (rest : List Nat) (stop : Nat) (value : α) :
    settle ending (first :: rest) stop value = .ok (value, stop) := rfl

theorem settle_cases (ending : Option Utf8.Fault) (rest : List Nat) :
    (∃ fault, ending = some fault ∧ rest = []) ∨
      ∀ {α : Type} (stop : Nat) (value : α), settle ending rest stop value = .ok (value, stop) := by
  cases rest with
  | nil =>
    cases ending with
    | none => exact .inr fun _ _ ↦ rfl
    | some fault => exact .inl ⟨fault, rfl, rfl⟩
  | cons first rest => exact .inr fun _ _ ↦ rfl

theorem isSuperscriptDigit_eq (code : Nat) :
    Lexer.isSuperscriptDigit code = (Lexer.superscriptValue? code).isSome := by
  rw [Bool.eq_iff_iff, Lexer.superscriptValue?, List.isSome_idxOf?, Lexer.isSuperscriptDigit,
    List.contains_iff_mem]

/-- The value of digits in superscript behind others. -/
def appended (value : Nat) (digits : List Nat) : Nat :=
  (digits.filterMap Lexer.superscriptValue?).foldl (fun number digit ↦ 10 * number + digit) value

theorem appended_nil (value : Nat) : appended value [] = value := rfl

/-- Further digits do not make a value smaller. -/
theorem le_appended (value : Nat) (digits : List Nat) : value ≤ appended value digits := by
  rw [appended]
  induction digits.filterMap Lexer.superscriptValue? generalizing value with
  | nil => exact Nat.le_refl value
  | cons digit rest ih => exact Nat.le_trans (by omega) (ih (10 * value + digit))

/-- Digits in superscript are passed up to the first character that is none. Their value may not
become too large. -/
theorem result_raisedLoop {start value count : Nat} (hstands : Stands text ending offset codes)
    (hvalue : value ≤ Lexer.exponentLimit) :
    (Traced.loop text.length (raisedStep text start) raisedStep_progresses (value, count)
        offset).result =
      if Lexer.exponentLimit < appended value (codes.takeWhile Lexer.isSuperscriptDigit) then
        .error ⟨.superscriptOutOfRange, start⟩
      else settle ending (codes.dropWhile Lexer.isSuperscriptDigit)
        (offset + Utf8.sizeAll (codes.takeWhile Lexer.isSuperscriptDigit))
        (appended value (codes.takeWhile Lexer.isSuperscriptDigit),
          count + (codes.takeWhile Lexer.isSuperscriptDigit).length) := by
  induction codes generalizing offset value count with
  | nil =>
    rw [List.takeWhile_nil, appended_nil, if_neg (Nat.not_lt.mpr hvalue)]
    cases ending with
    | none =>
      rw [Traced.loop_of_le raisedStep_progresses hstands.le]
      rfl
    | some fault =>
      obtain ⟨hoffset, hdecode, _⟩ := hstands.fault
      rw [Traced.loop_of_lt raisedStep_progresses hoffset]
      simp [raisedStep, hdecode, settle, Utf8.sizeAll, Utf8.encodeAll]
  | cons first rest ih =>
    obtain ⟨hoffset, hdecode, hrest, _, _⟩ := hstands.starts
    rw [Traced.loop_of_lt raisedStep_progresses hoffset]
    have hraised := isSuperscriptDigit_eq first
    cases hdigit : Lexer.superscriptValue? first with
    | none =>
      rw [hdigit] at hraised
      rw [List.takeWhile_cons_of_neg (by simp [hraised]),
        List.dropWhile_cons_of_neg (by simp [hraised]), appended_nil,
        if_neg (Nat.not_lt.mpr hvalue)]
      simp [raisedStep, hdecode, hdigit, Utf8.sizeAll, Utf8.encodeAll]
    | some digit =>
      rw [hdigit] at hraised
      have hstep : ∀ digits, appended value (first :: digits) =
          appended (10 * value + digit) digits := fun digits ↦ by
        rw [appended, List.filterMap_cons_some hdigit, List.foldl_cons, ← appended]
      rw [List.takeWhile_cons_of_pos (by simp [hraised]),
        List.dropWhile_cons_of_pos (by simp [hraised]), hstep]
      by_cases hlimit : Lexer.exponentLimit < 10 * value + digit
      · rw [if_pos (Nat.lt_of_lt_of_le hlimit (le_appended _ _))]
        simp [raisedStep, hdecode, hdigit, hlimit]
      · have hbehind := @ih (offset + Utf8.size first) (10 * value + digit) (count + 1) hrest
          (Nat.le_of_not_lt hlimit)
        rw [Utf8.sizeAll_cons, ← Nat.add_assoc, List.length_cons, Nat.add_comm _ 1,
          ← Nat.add_assoc, ← hbehind]
        simp [raisedStep, hdecode, hdigit, hlimit]

/-- The sign of an exponent in superscripts. -/
theorem size_superscriptSign (first : Nat) (rest : List Nat) :
    (if Lexer.isSuperscriptSign first then Utf8.size first else 0) = Utf8.sizeAll
      ((Lexer.scanSuperscriptSign (first :: rest)).1.map Lexer.superscriptSign).toList := by
  by_cases hplus : first = Lexer.superscriptSign .plus
  · simp [Lexer.scanSuperscriptSign, Lexer.isSuperscriptSign, hplus, Utf8.sizeAll,
      Utf8.encodeAll, Utf8.size]
  · by_cases hminus : first = Lexer.superscriptSign .minus
    · have hother : Lexer.superscriptSign .minus ≠ Lexer.superscriptSign .plus := by decide
      simp [Lexer.scanSuperscriptSign, Lexer.isSuperscriptSign, hminus, hother, Utf8.sizeAll,
        Utf8.encodeAll, Utf8.size]
    · simp [Lexer.scanSuperscriptSign, Lexer.isSuperscriptSign, hplus, hminus, Utf8.sizeAll,
        Utf8.encodeAll]

theorem apply_superscriptSign (first : Nat) (rest : List Nat) (exponent : Nat) :
    (if first = Lexer.superscriptSign .minus then -(exponent : Int) else exponent) =
      Sign.apply (Lexer.scanSuperscriptSign (first :: rest)).1 exponent := by
  by_cases hplus : first = Lexer.superscriptSign .plus
  · simp [Lexer.scanSuperscriptSign, hplus, Sign.apply, Lexer.superscriptSign]
  · by_cases hminus : first = Lexer.superscriptSign .minus
    · simp [Lexer.scanSuperscriptSign, hminus, Sign.apply, Lexer.superscriptSign]
    · simp [Lexer.scanSuperscriptSign, hplus, hminus, Sign.apply]

/-- A sweep passes a sign and the digits behind it. A fault right behind them stops it, whether
there are digits or not. -/
theorem result_superscript {first : Nat} {rest unsigned digits behind : List Nat}
    {sign : Option Sign} (hstands : Stands text ending offset (first :: rest))
    (hscan : Lexer.scanSuperscriptSign (first :: rest) = (sign, unsigned))
    (hdigits : unsigned.takeWhile Lexer.isSuperscriptDigit = digits)
    (hbehind : unsigned.dropWhile Lexer.isSuperscriptDigit = behind) :
    (superscript text offset).result =
      if Lexer.exponentLimit < appended 0 digits then .error ⟨.superscriptOutOfRange, offset⟩
      else (settle ending behind
          (offset + Utf8.sizeAll ((sign.map Lexer.superscriptSign).toList ++ digits)) ()).bind
        fun read ↦
          if digits = [] then .error ⟨.superscriptWithoutDigits, offset⟩
          else .ok (.superscript (Sign.apply sign (appended 0 digits)), read.2) := by
  have hdecode := hstands.starts.decode
  have hsize := size_superscriptSign first rest
  have happly := apply_superscriptSign first rest
  have hcodes := Lexer.codes_scanSuperscriptSign (first :: rest)
  rw [hscan] at hsize happly hcodes
  have hunsigned := (hcodes.symm ▸ hstands).behind
  have hloop := @result_raisedLoop _ _ _ _ offset 0 0 hunsigned (Nat.zero_le _)
  rw [hdigits, hbehind] at hloop
  by_cases hlimit : Lexer.exponentLimit < appended 0 digits
  · simp [superscript, hdecode, hsize, raised, hloop, hlimit]
  rw [if_neg hlimit] at hloop ⊢
  rcases settle_cases ending behind with ⟨fault, rfl, rfl⟩ | hsettle
  · simp [superscript, hdecode, hsize, raised, hloop, settle, Utf8.sizeAll_append, Nat.add_assoc]
  · rw [hsettle] at hloop ⊢
    cases digits <;>
      simp [superscript, hdecode, hsize, raised, hloop, happly, Utf8.sizeAll_append, Nat.add_assoc]

theorem agrees_superscript {first : Nat} {rest : List Nat}
    (hstands : Stands text ending offset (first :: rest)) :
    Agrees ending offset (Lexer.superscript ending (first :: rest))
      (superscript text offset).result := by
  generalize hscan : Lexer.scanSuperscriptSign (first :: rest) = scanned
  obtain ⟨sign, unsigned⟩ := scanned
  rw [result_superscript hstands hscan rfl rfl, Lexer.superscript, hscan]
  have hvalue : Decimal.value ((unsigned.takeWhile Lexer.isSuperscriptDigit).filterMap
    Lexer.superscriptValue?) = appended 0 (unsigned.takeWhile Lexer.isSuperscriptDigit) := rfl
  dsimp only
  rw [hvalue]
  generalize unsigned.takeWhile Lexer.isSuperscriptDigit = digits
  generalize unsigned.dropWhile Lexer.isSuperscriptDigit = behind
  by_cases hlimit : Lexer.exponentLimit < appended 0 digits
  · rw [if_pos hlimit, if_pos hlimit]
    exact .failed ⟨_, 0⟩
  rw [if_neg hlimit, if_neg hlimit]
  rcases settle_cases ending behind with ⟨fault, rfl, rfl⟩ | hsettle
  · cases digits with
    | nil =>
      rw [List.append_nil]
      exact .failed ⟨_, _⟩
    | cons digit digits => exact .stopped rfl rfl
  · rw [hsettle]
    cases digits with
    | nil =>
      dsimp only [Traced.ok_bind]
      rw [if_pos rfl, if_pos rfl]
      split
      · cases hsettle 0 ()
      · exact .failed ⟨_, 0⟩
    | cons digit digits => exact .read ⟨_, _, behind⟩

theorem isSuperscript_eq (code : Nat) : isSuperscript code =
    (Lexer.isSuperscriptDigit code || Lexer.isSuperscriptSign code) := by
  rw [isSuperscript, isSuperscriptDigit_eq, Bool.or_comm]

theorem isSymbol_of_ascii {code : Nat} (hascii : code < 0x80) :
    Lexer.isSymbol code = isLetter code := by
  rw [Lexer.isSymbol, if_pos hascii, isLetter]

theorem isBlank_of_ascii {code : Nat} (hascii : code < 0x80) :
    Lexer.isBlank code = isSpace code := by
  have hspace : (code == 0xA0) = false := by simp; omega
  rw [Lexer.isBlank, hspace, Bool.or_false, isSpace]

theorem isSpace_of_beyond {byte : Nat} (hbeyond : 0x80 ≤ byte) : isSpace byte = false := by
  simp [isSpace]
  omega

theorem isBlank_of_beyond {code : Nat} (hbeyond : 0x80 ≤ code) :
    Lexer.isBlank code = (code == 0xA0) := by
  simp [Lexer.isBlank]
  omega

theorem isTimes_of_beyond {code : Nat} (hbeyond : 0x80 ≤ code) :
    Lexer.isTimes code = isTimesSign code := by
  have hstar : (code == 42) = false := by simp; omega
  rw [Lexer.isTimes, hstar, Bool.false_or, isTimesSign]

theorem isSymbol_of_beyond {code : Nat} (hbeyond : 0x80 ≤ code) :
    Lexer.isSymbol code = !endsSymbol code := by
  rw [Lexer.isSymbol, if_neg (Nat.not_lt.mpr hbeyond), isBlank_of_beyond hbeyond,
    isTimes_of_beyond hbeyond, Bool.or_assoc, ← isSuperscript_eq, endsSymbol]

/-- A character of a symbol is passed. -/
theorem result_symbolStep {first : Nat} {rest : List Nat}
    (hstands : Stands text ending offset (first :: rest)) : (symbolStep text () offset).result = .ok
      (if Lexer.isSymbol first then (some (), offset + Utf8.size first) else (none, offset)) := by
  obtain ⟨_, hdecode, _, hascii, hbeyond⟩ := hstands.starts
  rcases Nat.lt_or_ge first 0x80 with hlt | hle
  · rw [isSymbol_of_ascii hlt, size_of_ascii hlt]
    cases hletter : isLetter first <;> simp [symbolStep, hascii hlt, hlt, hletter]
  · rw [isSymbol_of_beyond hle]
    cases hends : endsSymbol first <;>
      simp [symbolStep, Nat.not_lt.mpr (hbeyond hle), hdecode, hends]

/-- Characters of symbols are passed up to the first one that is none. -/
theorem result_letters (hstands : Stands text ending offset codes) :
    (letters text offset).result = settle ending (codes.dropWhile Lexer.isSymbol)
      (offset + Utf8.sizeAll (codes.takeWhile Lexer.isSymbol)) () := by
  induction codes generalizing offset with
  | nil =>
    cases ending with
    | none =>
      rw [letters, Traced.loop_of_le symbolStep_progresses hstands.le]
      rfl
    | some fault =>
      obtain ⟨hoffset, hdecode, hother⟩ := hstands.fault
      rw [letters, Traced.loop_of_lt symbolStep_progresses hoffset]
      simp [symbolStep, hdecode, settle, Utf8.sizeAll, Utf8.encodeAll, Nat.not_lt.mpr hother]
  | cons first rest ih =>
    have hoffset := hstands.starts.lt
    have hbehind := ih hstands.starts.rest
    have hstep := result_symbolStep hstands
    rw [letters, Traced.loop_of_lt symbolStep_progresses hoffset]
    by_cases hsymbol : Lexer.isSymbol first = true
    · rw [List.takeWhile_cons_of_pos hsymbol, List.dropWhile_cons_of_pos hsymbol,
        Utf8.sizeAll_cons, ← Nat.add_assoc, ← hbehind]
      simp [hstep, hsymbol, letters]
    · rw [List.takeWhile_cons_of_neg hsymbol, List.dropWhile_cons_of_neg hsymbol]
      simp [hstep, hsymbol, Utf8.sizeAll, Utf8.encodeAll]

theorem agrees_symbol {first : Nat} {rest : List Nat}
    (hstands : Stands text ending offset (first :: rest)) (hsymbol : Lexer.isSymbol first = true) :
    Agrees ending offset (Lexer.lexeme ending first rest) (symbol text offset).result := by
  have hletters := result_letters hstands
  rw [Lexer.lexeme_of_isSymbol hsymbol]
  rw [List.takeWhile_cons_of_pos hsymbol, List.dropWhile_cons_of_pos hsymbol] at hletters
  rcases settle_cases ending (rest.dropWhile Lexer.isSymbol) with ⟨fault, hfault, hrest⟩ | hsettle
  · have hresult : (symbol text offset).result = .error ⟨.encoding fault, offset +
        Utf8.sizeAll (first :: rest.takeWhile Lexer.isSymbol)⟩ := by
      simp [symbol, hletters, settle, hfault, hrest]
    rw [hresult]
    exact .stopped hrest hfault
  · have hresult : (symbol text offset).result = .ok (.symbol, offset +
        Utf8.sizeAll (first :: rest.takeWhile Lexer.isSymbol)) := by
      simp [symbol, hletters, hsettle]
    rw [hresult]
    exact .read ⟨_, _, rest.dropWhile Lexer.isSymbol⟩

/-! ### Rounds -/

theorem result_found (reader : Sweep TokenKind) : (found reader offset).result =
    (reader offset).result.map fun read ↦ (some read.1, read.2) := by
  simp only [found, Traced.result_stateT_bind, Traced.result_stateT_pure]
  cases (reader offset).result <;> rfl

theorem result_pass (length : Nat) (kind? : Option TokenKind) :
    (pass length kind? offset).result = .ok (kind?, offset + length) := rfl

/-- What a sweep comes to where the lexer reads a kind. -/
def Finds (ending : Option Utf8.Fault) (offset : Nat) (read : Except Lexer.Failure Lexer.Lexeme)
    (result : Except Lexer.Refusal (Option TokenKind × Nat)) : Prop :=
  ∃ single, result = single.map (fun read ↦ (some read.1, read.2)) ∧
    Agrees ending offset read single

theorem finds_found {read : Except Lexer.Failure Lexer.Lexeme} {reader : Sweep TokenKind}
    (hreader : Agrees ending offset read (reader offset).result) :
    Finds ending offset read (found reader offset).result :=
  ⟨_, result_found reader, hreader⟩

theorem finds_pass (kind : TokenKind) (first : Nat) (rest : List Nat) :
    Finds ending offset (.ok ⟨kind, [first], rest⟩)
      (pass (Utf8.size first) (some kind) offset).result := by
  have hsize : Utf8.size first = Utf8.sizeAll [first] := by
    rw [Utf8.sizeAll_cons]
    rfl
  rw [result_pass, hsize]
  exact ⟨_, rfl, .read ⟨kind, [first], rest⟩⟩

theorem finds_nextAscii {first : Nat} {rest : List Nat}
    (hstands : Stands text ending offset (first :: rest)) (hascii : first < 0x80) :
    Finds ending offset (Lexer.lexeme ending first rest) (nextAscii text first offset).result := by
  by_cases hnumber : Lexer.startsNumber first = true
  · rw [Lexer.lexeme_of_startsNumber hnumber, nextAscii, if_pos hnumber]
    exact finds_found (agrees_number hstands)
  by_cases htimes : first = 42
  · subst htimes
    exact finds_pass .times 42 rest
  by_cases hdivide : first = 47
  · subst hdivide
    exact finds_pass .divide 47 rest
  by_cases hcaret : first = 94
  · subst hcaret
    exact finds_pass .caret 94 rest
  rw [nextAscii, if_neg hnumber, if_neg htimes, if_neg hdivide, if_neg hcaret]
  by_cases hletter : isLetter first = true
  · rw [if_pos hletter]
    exact finds_found (agrees_symbol hstands (isSymbol_of_ascii hascii ▸ hletter))
  · have hother : Lexer.isTimes first = false ∧ Lexer.isSuperscriptDigit first = false ∧
        Lexer.isSuperscriptSign first = false := by
      simp [Lexer.isTimes, Lexer.isSuperscriptDigit, Lexer.superscriptDigits,
        Lexer.isSuperscriptSign, Lexer.superscriptSign]
      omega
    have hlexeme : Lexer.lexeme ending first rest = .error ⟨.unexpectedCharacter first, 0⟩ := by
      simp [Lexer.lexeme, hother, hdivide, hcaret, hnumber, isSymbol_of_ascii hascii, hletter]
    rw [hlexeme, if_neg hletter]
    exact ⟨_, rfl, .failed ⟨_, 0⟩⟩

theorem finds_nextBeyond {first : Nat} {rest : List Nat}
    (hstands : Stands text ending offset (first :: rest)) (hbeyond : 0x80 ≤ first)
    (hblank : Lexer.isBlank first = false) :
    Finds ending offset (Lexer.lexeme ending first rest) (nextBeyond text offset).result := by
  have hdecode := hstands.starts.decode
  have hspace : first ≠ 0xA0 := by
    rw [isBlank_of_beyond hbeyond] at hblank
    simpa using hblank
  have hother : first ≠ 47 ∧ first ≠ 94 ∧ Lexer.startsNumber first = false := by
    simp [Lexer.startsNumber, isDigit]
    omega
  have htimes := isTimes_of_beyond hbeyond
  by_cases hsign : isTimesSign first = true
  · have hresult : (nextBeyond text offset).result =
        (pass (Utf8.size first) (some .times) offset).result := by
      simp [nextBeyond, hdecode, hspace, hsign]
    rw [hresult, Lexer.lexeme, if_pos (htimes.trans hsign)]
    exact finds_pass .times first rest
  by_cases hsuperscript : isSuperscript first = true
  · have hresult : (nextBeyond text offset).result =
        (found (superscript text) offset).result := by
      simp [nextBeyond, hdecode, hspace, hsign, hsuperscript]
    have hlexeme : Lexer.lexeme ending first rest = Lexer.superscript ending (first :: rest) := by
      rw [isSuperscript_eq] at hsuperscript
      simp only [Lexer.lexeme, htimes, hother, hsign, hsuperscript, if_true, if_false,
        Bool.false_eq_true]
    rw [hresult, hlexeme]
    exact finds_found (agrees_superscript hstands)
  · have hresult : (nextBeyond text offset).result = (found (symbol text) offset).result := by
      simp [nextBeyond, hdecode, hspace, hsign, hsuperscript]
    have hsymbol : Lexer.isSymbol first = true := by
      simp [isSymbol_of_beyond hbeyond, endsSymbol, hspace, hsign, hsuperscript]
    rw [hresult]
    exact finds_found (agrees_symbol hstands hsymbol)

/-- Where a token starts, a sweep comes to its kind as the lexer does. -/
theorem finds_nextKind {first : Nat} {rest : List Nat}
    (hstands : Stands text ending offset (first :: rest)) (hblank : Lexer.isBlank first = false) :
    Finds ending offset (Lexer.lexeme ending first rest) (nextKind text offset).result := by
  rcases Nat.lt_or_ge first 0x80 with hlt | hle
  · have hbyte := hstands.starts.ascii hlt
    have hresult : (nextKind text offset).result = (nextAscii text first offset).result := by
      rw [isBlank_of_ascii hlt] at hblank
      simp [nextKind, hbyte, hblank, Nat.not_le.mpr hlt]
    rw [hresult]
    exact finds_nextAscii hstands hlt
  · have hbyte := hstands.starts.beyond hle
    have hresult : (nextKind text offset).result = (nextBeyond text offset).result := by
      simp [nextKind, isSpace_of_beyond hbyte, hbyte]
    rw [hresult]
    exact finds_nextBeyond hstands hle hblank

/-- A blank is passed. -/
theorem result_nextKind_of_isBlank {first : Nat} {rest : List Nat}
    (hstands : Stands text ending offset (first :: rest)) (hblank : Lexer.isBlank first = true) :
    (nextKind text offset).result = .ok (none, offset + Utf8.size first) := by
  rcases Nat.lt_or_ge first 0x80 with hlt | hle
  · rw [isBlank_of_ascii hlt] at hblank
    simp [nextKind, hstands.starts.ascii hlt, hblank, result_pass, size_of_ascii hlt]
  · have hbyte := hstands.starts.beyond hle
    rw [isBlank_of_beyond hle, beq_iff_eq] at hblank
    have hdecode := hstands.starts.decode
    simp [nextKind, isSpace_of_beyond hbyte, hbyte, nextBeyond, hdecode, hblank, result_pass]

theorem result_nextKind_of_fault {fault : Utf8.Fault}
    (hstands : Stands text (some fault) offset []) :
    (nextKind text offset).result = .error ⟨.encoding fault, offset⟩ := by
  obtain ⟨_, hdecode, hbyte⟩ := hstands.fault
  simp [nextKind, isSpace_of_beyond hbyte, hbyte, nextBeyond, hdecode]

/-- What the lexer says behind a round. -/
def goOn (text : Text) (read : Option Token × Nat) : Except Lexer.Refusal (List Token) :=
  match read.1 with
  | none => Lexer.tokensOf read.2 true (text.drop read.2)
  | some token => (Lexer.tokensOf read.2 false (text.drop read.2)).map (token :: ·)

theorem Stands.tokensOf (hstands : Stands text ending offset codes) (spaced : Bool) :
    Lexer.tokensOf offset spaced (text.drop offset) =
      Lexer.tokens ending offset spaced codes := by
  rw [Lexer.tokensOf, hstands]

/-- A round begins what the lexer reads. -/
theorem tokensOf_eq_bind_round (hoffset : offset < text.length) (spaced : Bool) :
    Lexer.tokensOf offset spaced (text.drop offset) =
      (round text spaced offset).result.bind (goOn text) := by
  obtain ⟨ending, codes, hstands⟩ : ∃ ending codes, Stands text ending offset codes := ⟨_, _, rfl⟩
  rw [hstands.tokensOf]
  cases codes with
  | nil =>
    cases ending with
    | none => exact absurd hstands.le (Nat.not_le.mpr hoffset)
    | some fault =>
      simp [round, result_nextKind_of_fault hstands, Lexer.tokens]
  | cons first rest =>
    by_cases hblank : Lexer.isBlank first = true
    · have hrest := hstands.starts.rest.tokensOf true
      rw [Lexer.tokens, if_pos hblank, ← hrest]
      simp [round, result_nextKind_of_isBlank hstands hblank, goOn]
    · have hnone : Lexer.isBlank first = false := by simpa using hblank
      obtain ⟨single, hresult, hagrees⟩ := finds_nextKind hstands hnone
      generalize hlexeme : Lexer.lexeme ending first rest = read at hagrees
      cases hagrees with
      | read lexeme =>
        have hcodes := (Lexer.lexeme_codes hlexeme).1
        rw [Lexer.tokens_cons_of_lexeme hnone hlexeme]
        rw [← hcodes] at hstands
        have hslice := hstands.take_drop
        have hrest := hstands.behind.tokensOf false
        simp [round, hresult, hslice, goOn, hrest]
      | stopped hrest hending =>
        rw [Lexer.tokens_cons_of_lexeme hnone hlexeme, hrest, hending]
        simp [round, hresult, Lexer.tokens]
      | failed failure =>
        rw [Lexer.tokens_cons_of_failure hblank hlexeme]
        simp [round, hresult]

/-- What is read behind the tokens that were read already. -/
theorem result_tokensLoop {read : List Token × Bool} (hoffset : offset ≤ text.length) :
    (Traced.loop text.length (tokenStep text) tokenStep_progresses read offset).result.map
        (fun last ↦ last.1.1 ++ [(⟨.finish, [], text.length, last.1.2⟩ : Token)]) =
      (Lexer.tokensOf offset read.2 (text.drop offset)).map (read.1 ++ ·) := by
  induction read, offset using Traced.loop_induction (@tokenStep_progresses text) with
  | hmotive read offset ih =>
    obtain ⟨before, spaced⟩ := read
    rcases Nat.lt_or_eq_of_le hoffset with hlt | rfl
    · have hstep : (tokenStep text (before, spaced) offset).result =
          (extend text (before, spaced) offset).result := by
        simp [tokenStep]
      rw [Traced.loop_of_lt tokenStep_progresses hlt, tokensOf_eq_bind_round hlt,
        Traced.result_bind]
      rw [hstep] at ih ⊢
      cases hround : (round text spaced offset).result with
      | error refusal => simp [extend, hround]
      | ok read =>
        obtain ⟨token?, behind⟩ := read
        have hbehind := ((round_advances hlt spaced).value _ hround).2
        cases token? with
        | none =>
          have hlater := ih (before, true) behind hlt (by simp [extend, hround]) hbehind
          simpa [extend, hround, goOn] using hlater
        | some token =>
          have hlater := ih (before ++ [token], false) behind hlt (by simp [extend, hround]) hbehind
          simpa [extend, hround, goOn, Fallible.map_map] using hlater
    · rw [Traced.loop_of_le tokenStep_progresses (Nat.le_refl _), List.drop_length,
        Lexer.tokensOf, Utf8.decodeAll, Lexer.tokens]
      rfl

/-- A sweep over a text comes to its tokens. -/
theorem mapError_tokens : (tokens text).result.mapError (fun refusal ↦
    (⟨.lexical refusal.fault, text, refusal.position⟩ : ExpressionError)) = Token.ofText text := by
  have hloop := @result_tokensLoop text 0 ([], false) (Nat.zero_le _)
  have htokens : (tokens text).result = Lexer.tokensOf 0 false text := by
    rw [List.drop_zero] at hloop
    cases hread : (Traced.loop text.length (tokenStep text) tokenStep_progresses
        ([], false) 0).result <;> cases hlexer : Lexer.tokensOf 0 false text <;>
      simp_all [tokens]
  rw [htokens]
  rfl

end Sweep

open Sweep in
/-- A text is read through an offset that stays within the text. The sweep comes to the tokens of
the text. It reads no byte behind the text, begins every round of its loop at a larger offset than
the one before, and has no more rounds than there are bytes, so that there are no more tokens than
bytes and an end of input. From any place of the text, a round, a number and an exponent in
superscripts come to a larger offset that is not beyond the end, or fail, and so does a symbol where
a round takes the character for the first one of a symbol. Decoding finds a form that is not empty
and ends within the text. -/
theorem Token.sweep_spec (text : Text) :
    (tokens text).result.mapError (fun refusal ↦
        (⟨.lexical refusal.fault, text, refusal.position⟩ : ExpressionError)) = ofText text ∧
      (∀ event ∈ (tokens text).events, event.offset < text.length) ∧
      (begun (tokens text).events).Pairwise (· < ·) ∧
      (begun (tokens text).events).length ≤ text.length ∧
      (∀ read, ofText text = .ok read → read.length ≤ text.length + 1) ∧
      ∀ offset < text.length,
        (∀ spaced, Advances text offset (round text spaced offset)) ∧
        Advances text offset (number text offset) ∧
        Advances text offset (superscript text offset) ∧
        (StartsSymbol text offset → Advances text offset (symbol text offset)) ∧
        Stays text (decode text offset) fun read ↦
          read.2 = offset ∧ 0 < read.1.2 ∧ offset + read.1.2 ≤ text.length := by
  have hbegun := @increasing_begun text
  refine ⟨mapError_tokens, tokens_ensures.events, hbegun.1,
    Traced.length_le_of_increasing hbegun.1 hbegun.2, fun read hread ↦ ?_,
    fun offset hoffset ↦ ⟨round_advances hoffset, number_advances hoffset,
      superscript_advances hoffset, fun hstarts ↦ symbol_advances hstarts hoffset,
      decode_stays hoffset⟩⟩
  rw [← mapError_tokens] at hread
  exact tokens_ensures.value read (Fallible.mapError_eq_ok_iff.mp hread)

/-- Blanks have rounds of their own. -/
example : Sweep.begun (Sweep.tokens [109, 32, 42]).events = [0, 1, 2] := by decide +kernel

end Metrology
