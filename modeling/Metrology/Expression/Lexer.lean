import Metrology.Expression.Error
import Metrology.Numeric.Conversion

/-!
# From text to tokens

A text is read as code points. Blanks separate tokens and belong to none. `lexeme` reads the token
at the start of a list of code points that does not start with a blank; `Token.ofText` reads a whole
text and ends its tokens with an end of input. Symbols are maximal runs of ASCII letters, `_`, `$`,
`%` and all characters beyond ASCII that have no other use here. Numbers are the numerals of
`Metrology.Numeral`. A text with a malformed code point is read up to that point.
-/

set_option autoImplicit false
set_option relaxedAutoImplicit false

namespace Metrology

namespace Lexer

/-! ### Character classes -/

/-- Space, tab, carriage return, line feed and the no-break space. -/
def isBlank (code : Nat) : Bool :=
  code == 32 || code == 9 || code == 13 || code == 10 || code == 0xA0

/-- `*`, the middle dot, the dot operator and the multiplication sign. -/
def isTimes (code : Nat) : Bool :=
  code == 42 || code == 0xB7 || code == 0x22C5 || code == 0xD7

/-- The superscript digits, in the order of their values. -/
def superscriptDigits : List Nat :=
  [0x2070, 0xB9, 0xB2, 0xB3, 0x2074, 0x2075, 0x2076, 0x2077, 0x2078, 0x2079]

/-- The value of a superscript digit. -/
def superscriptValue? (code : Nat) : Option Nat :=
  superscriptDigits.idxOf? code

/-- A digit in superscript. -/
def isSuperscriptDigit (code : Nat) : Bool :=
  superscriptDigits.contains code

/-- The superscript form of a sign. -/
def superscriptSign : Sign → Nat
  | .plus => 0x207A
  | .minus => 0x207B

/-- A sign in superscript. -/
def isSuperscriptSign (code : Nat) : Bool :=
  code == superscriptSign .plus || code == superscriptSign .minus

/-- The characters that symbols consist of. -/
def isSymbol (code : Nat) : Bool :=
  if code < 0x80 then
    (65 ≤ code && code ≤ 90) || (97 ≤ code && code ≤ 122) || code == 95 || code == 36 || code == 37
  else !(isBlank code || isTimes code || isSuperscriptDigit code || isSuperscriptSign code)

/-- The characters that numbers start with. -/
def startsNumber (code : Nat) : Bool :=
  isDigit code || code == 46 || code == 43 || code == 45

/-! ### Lexemes -/

/-- A token without its place: its kind, the code points that it takes and those after it. -/
structure Lexeme where
  kind : TokenKind
  codes : List Nat
  rest : List Nat

/-- Why no lexeme can be read, and how many bytes after its start. -/
structure Failure where
  fault : LexicalFault
  offset : Nat

/-- The text of a mantissa together with the point that follows it. -/
def textWithPoint (codes : List Nat) : Text :=
  Utf8.encodeAll (codes ++ [46])

/-- The number at the start of a list of code points. No second point may follow it. -/
def number (codes : List Nat) : Except Failure Lexeme :=
  match Numeral.scan codes with
  | none => .error ⟨.malformedNumber (Utf8.encodeAll (Mantissa.scan codes).1.codes), 0⟩
  | some (numeral, rest) =>
    if rest.head? = some 46 then .error ⟨.malformedNumber (textWithPoint numeral.codes), 0⟩
    else if numeral.convert.inRange then
      .ok ⟨.number numeral.convert.value numeral.integer?, numeral.codes, rest⟩
    else .error ⟨.numberOutOfRange (Utf8.encodeAll numeral.codes), 0⟩

/-- The largest exponent that an expression may write. -/
def exponentLimit : Nat := 2147483647

/-- The superscript sign that a list of code points may start with, and the rest. -/
def scanSuperscriptSign : List Nat → Option Sign × List Nat
  | [] => (none, [])
  | first :: rest =>
    if first = superscriptSign .plus then (some .plus, rest)
    else if first = superscriptSign .minus then (some .minus, rest)
    else (none, first :: rest)

/-- The exponent in superscripts at the start of a list of code points, which a malformed code point
may end. -/
def superscript (ending : Option Utf8.Fault) (codes : List Nat) : Except Failure Lexeme :=
  let (sign, unsigned) := scanSuperscriptSign codes
  let signCodes := (sign.map superscriptSign).toList
  let digits := unsigned.takeWhile isSuperscriptDigit
  let rest := unsigned.dropWhile isSuperscriptDigit
  let exponent := Decimal.value (digits.filterMap superscriptValue?)
  if exponentLimit < exponent then .error ⟨.superscriptOutOfRange, 0⟩
  else if digits = [] then
    match rest, ending with
    | [], some fault => .error ⟨.encoding fault, Utf8.sizeAll signCodes⟩
    | _, _ => .error ⟨.superscriptWithoutDigits, 0⟩
  else .ok ⟨.superscript (Sign.apply sign exponent), signCodes ++ digits, rest⟩

/-- The lexeme at the start of code points that do not start with a blank. A malformed code point
may end them. -/
def lexeme (ending : Option Utf8.Fault) (first : Nat) (rest : List Nat) : Except Failure Lexeme :=
  if isTimes first then .ok ⟨.times, [first], rest⟩
  else if first = 47 then .ok ⟨.divide, [first], rest⟩
  else if first = 94 then .ok ⟨.caret, [first], rest⟩
  else if startsNumber first then number (first :: rest)
  else if isSuperscriptDigit first || isSuperscriptSign first then
    superscript ending (first :: rest)
  else if isSymbol first then
    .ok ⟨.symbol, first :: rest.takeWhile isSymbol, rest.dropWhile isSymbol⟩
  else .error ⟨.unexpectedCharacter first, 0⟩

/-! ### A lexeme takes what it reads -/

theorem numeral_codes_ne_nil {input rest : List Nat} {numeral : Numeral}
    (hscan : Numeral.scan input = some (numeral, rest)) : numeral.codes ≠ [] := by
  simp only [Numeral.scan] at hscan
  split at hscan
  · simp at hscan
  · next hdigits =>
    simp only [Option.some.injEq, Prod.mk.injEq] at hscan
    obtain ⟨rfl, _⟩ := hscan
    intro hnil
    simp only [Numeral.codes, Mantissa.codes, List.append_eq_nil_iff, List.map_eq_nil_iff] at hnil
    obtain ⟨⟨⟨_, hwhole⟩, hfraction⟩, _⟩ := hnil
    refine hdigits ?_
    rw [Mantissa.digits, hwhole]
    unfold Mantissa.fractionCodes at hfraction
    split at hfraction
    · next hnone => rw [hnone]; rfl
    · simp at hfraction

theorem number_codes {codes : List Nat} {result : Lexeme} (h : number codes = .ok result) :
    result.codes ++ result.rest = codes ∧ result.codes ≠ [] := by
  unfold number at h
  split at h
  · simp at h
  · next numeral rest hscan =>
    split at h
    · simp at h
    · split at h
      · simp only [Except.ok.injEq] at h
        subst h
        exact ⟨Numeral.codes_scan hscan, numeral_codes_ne_nil hscan⟩
      · simp at h

theorem codes_scanSuperscriptSign (input : List Nat) :
    ((scanSuperscriptSign input).1.map superscriptSign).toList ++ (scanSuperscriptSign input).2 =
      input := by
  unfold scanSuperscriptSign
  split
  · rfl
  · split
    · next h => simp [h]
    · split
      · next h => simp [h]
      · rfl

theorem superscript_codes {ending : Option Utf8.Fault} {codes : List Nat} {result : Lexeme}
    (h : superscript ending codes = .ok result) :
    result.codes ++ result.rest = codes ∧ result.codes ≠ [] := by
  simp only [superscript] at h
  split at h
  · simp at h
  · split at h
    · split at h <;> simp at h
    · next hdigits =>
      simp only [Except.ok.injEq] at h
      subst h
      refine ⟨?_, fun hnil ↦ hdigits (List.append_eq_nil_iff.mp hnil).2⟩
      rw [List.append_assoc, List.takeWhile_append_dropWhile, codes_scanSuperscriptSign]

/-- A lexeme takes one code point at least, and loses none. -/
theorem lexeme_codes {ending : Option Utf8.Fault} {first : Nat} {rest : List Nat}
    {result : Lexeme} (h : lexeme ending first rest = .ok result) :
    result.codes ++ result.rest = first :: rest ∧ result.codes ≠ [] := by
  unfold lexeme at h
  split at h
  · cases h; simp
  split at h
  · cases h; simp
  split at h
  · cases h; simp
  split at h
  · exact number_codes h
  split at h
  · exact superscript_codes h
  split at h
  · cases h; simp [List.takeWhile_append_dropWhile]
  · cases h

theorem lexeme_rest_length_lt {ending : Option Utf8.Fault} {first : Nat} {rest : List Nat}
    {result : Lexeme} (h : lexeme ending first rest = .ok result) :
    result.rest.length < rest.length + 1 := by
  obtain ⟨hcodes, hne⟩ := lexeme_codes h
  have hlength := congrArg List.length hcodes
  rw [List.length_append, List.length_cons] at hlength
  have := List.length_pos_iff.mpr hne
  omega

/-! ### Tokens -/

/-- A lexical fault and the byte offset where it lies. -/
structure Refusal where
  fault : LexicalFault
  position : Nat
  deriving DecidableEq

/-- The tokens of code points from a byte offset on. `spaced` says that blanks stand before them. -/
def tokens (ending : Option Utf8.Fault) (position : Nat) (spaced : Bool) :
    List Nat → Except Refusal (List Token)
  | [] =>
    match ending with
    | none => .ok [⟨.finish, [], position, spaced⟩]
    | some fault => .error ⟨.encoding fault, position⟩
  | first :: rest =>
    if isBlank first then tokens ending (position + Utf8.size first) true rest
    else
      match _hlexeme : lexeme ending first rest with
      | .error failure => .error ⟨failure.fault, position + failure.offset⟩
      | .ok result =>
        (tokens ending (position + Utf8.sizeAll result.codes) false result.rest).map
          (⟨result.kind, Utf8.encodeAll result.codes, position, spaced⟩ :: ·)
  termination_by codes => codes.length
  decreasing_by
    · simp
    · exact lexeme_rest_length_lt _hlexeme

end Lexer

/-- The tokens of a text, ended by an end of input. -/
def Token.ofText (text : Text) : Except ExpressionError (List Token) :=
  let (codes, ending) := Utf8.decodeAll text
  (Lexer.tokens ending 0 false codes).mapError fun refusal ↦
    ⟨.lexical refusal.fault, text, refusal.position⟩

end Metrology
