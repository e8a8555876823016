import Metrology.Proofs.Expression.Sweep

/-!
# Rounds of a sweep

A round of the loop over tokens passes a blank, or finds what stands where the sweep is and reads
it. Characters are classified by the round, byte by byte below `0x80` and as code points beyond, and
again by what is read. A symbol takes nothing where no symbol starts, so progress rests on these
classes: where a round takes a character for the first one of a symbol, so does the symbol
(`Sweep.symbolStep_of_startsSymbol`). Every round therefore comes to a larger offset or fails
(`Sweep.round_advances`), and there are no more rounds than bytes (`Sweep.increasing_begun`).
-/

set_option autoImplicit false
set_option relaxedAutoImplicit false

namespace Metrology

namespace Sweep

/-! ### Classes of characters -/

/-- The bytes that are blanks. -/
def isSpace (byte : Nat) : Bool :=
  byte == 32 || byte == 9 || byte == 13 || byte == 10

/-- The bytes below `0x80` that symbols consist of. -/
def isLetter (byte : Nat) : Bool :=
  (65 ≤ byte && byte ≤ 90) || (97 ≤ byte && byte ≤ 122) || byte == 95 || byte == 36 || byte == 37

/-- The signs of multiplication from `0x80` on. -/
def isTimesSign (code : Nat) : Bool :=
  code == 0xB7 || code == 0x22C5 || code == 0xD7

/-- The characters of exponents in superscripts. -/
def isSuperscript (code : Nat) : Bool :=
  Lexer.isSuperscriptSign code || (Lexer.superscriptValue? code).isSome

/-- The characters from `0x80` on that end a symbol. -/
def endsSymbol (code : Nat) : Bool :=
  code == 0xA0 || isTimesSign code || isSuperscript code

/-! ### Superscripts -/

section

variable (text : Text)

/-- Passes a digit in superscript. What it comes to is the exponent and the number of digits. -/
def raisedStep (start : Nat) (read : Nat × Nat) : Sweep (Option (Nat × Nat)) := do
  let (code, length) ← decode text
  match Lexer.superscriptValue? code with
  | none => pure none
  | some digit =>
    let exponent := 10 * read.1 + digit
    if Lexer.exponentLimit < exponent then refuse start .superscriptOutOfRange
    else
      skip length
      pure (some (exponent, read.2 + 1))

variable {text} {offset start : Nat}

theorem raisedStep_stays {read : Nat × Nat} (hoffset : offset < text.length) :
    Stays text (raisedStep text start read offset) fun next ↦ next = (none, offset) ∨
      ∃ exponent behind, next = (some (exponent, read.2 + 1), behind) ∧ offset < behind ∧
        behind ≤ text.length := by
  refine Traced.ensures_bind (decode_stays hoffset) ?_
  rintro ⟨code, length⟩ _ ⟨rfl, hpos, hlength⟩
  dsimp only at *
  cases Lexer.superscriptValue? code with
  | none => exact Traced.ensures_pure (.inl rfl)
  | some digit =>
    dsimp only
    split
    · exact refuse_stays _ _
    · refine Traced.ensures_bind (skip_stays length) ?_
      rintro _ _ rfl
      exact Traced.ensures_pure (.inr ⟨_, _, rfl, Nat.lt_add_of_pos_right hpos, hlength⟩)

theorem raisedStep_progresses : Traced.Progresses text.length (raisedStep text start) := by
  intro read offset next behind hoffset hread
  rcases (raisedStep_stays hoffset).value _ hread with heq | ⟨_, _, heq, hlt, _⟩
  · cases heq
  · cases heq
    exact hlt

variable (text)

/-- Passes digits in superscript. -/
def raised (start : Nat) : Sweep (Nat × Nat) :=
  Traced.loop text.length (raisedStep text start) raisedStep_progresses (0, 0)

/-- An exponent in superscripts. -/
def superscript : Sweep TokenKind := do
  let start ← here
  let (sign, length) ← decode text
  skip (if Lexer.isSuperscriptSign sign then length else 0)
  let (exponent, count) ← raised text start
  if count = 0 then refuse start .superscriptWithoutDigits
  else pure (.superscript
    (if sign = Lexer.superscriptSign .minus then -(exponent : Int) else exponent))

variable {text}

/-- Every digit takes a byte at least. -/
theorem raised_stays (hoffset : offset ≤ text.length) :
    Stays text (raised text start offset) fun read ↦
      offset + read.1.2 ≤ read.2 ∧ read.2 ≤ text.length := by
  refine Traced.loop_ensures raisedStep_progresses
    (fun read behind ↦ offset + read.2 ≤ behind ∧ behind ≤ text.length) ?_ _ _
    ⟨Nat.le_refl _, hoffset⟩
  rintro read between hbetween ⟨hcount, -⟩
  refine (raisedStep_stays hbetween).mono ?_
  rintro _ (rfl | ⟨exponent, behind, rfl, hlt, hbehind⟩)
  · exact ⟨hcount, Nat.le_of_lt hbetween⟩
  · exact ⟨by dsimp only [Option.getD_some]; omega, hbehind⟩

/-- An exponent in superscripts has a digit. -/
theorem superscript_advances (hoffset : offset < text.length) :
    Advances text offset (superscript text offset) := by
  refine Traced.ensures_bind here_stays ?_
  rintro _ _ ⟨rfl, rfl⟩
  refine Traced.ensures_bind (decode_stays hoffset) ?_
  rintro ⟨sign, length⟩ offset ⟨rfl, -, hlength⟩
  refine Traced.ensures_bind (skip_stays _) ?_
  rintro _ unsigned hunsigned
  dsimp only at *
  have hsign : offset ≤ unsigned ∧ unsigned ≤ text.length := by
    split at hunsigned <;> omega
  refine Traced.ensures_bind (raised_stays hsign.2) ?_
  rintro ⟨exponent, count⟩ behind ⟨hcount, hbehind⟩
  dsimp only at *
  split
  · exact refuse_stays _ _
  · exact Traced.ensures_pure ⟨by dsimp only; omega, hbehind⟩

end

/-! ### Symbols -/

section

variable (text : Text)

/-- Passes a character of a symbol. -/
def symbolStep (_state : Unit) : Sweep (Option Unit) := do
  let offset ← here
  let byte ← byteAt text offset
  if byte.toNat < 0x80 then
    if isLetter byte.toNat then
      skip 1
      pure (some ())
    else pure none
  else
    let (code, length) ← decode text
    if endsSymbol code then pure none
    else
      skip length
      pure (some ())

variable {text} {offset : Nat}

theorem symbolStep_stays {state : Unit} (hoffset : offset < text.length) :
    Stays text (symbolStep text state offset) fun read ↦ read = (none, offset) ∨
      read.1 = some () ∧ offset < read.2 ∧ read.2 ≤ text.length := by
  refine Traced.ensures_bind here_stays ?_
  rintro _ _ ⟨rfl, rfl⟩
  refine Traced.ensures_bind (byteAt_stays hoffset) ?_
  rintro byte _ ⟨rfl, rfl⟩
  split
  · split
    · refine Traced.ensures_bind (skip_stays 1) ?_
      rintro _ _ rfl
      exact Traced.ensures_pure (.inr ⟨rfl, Nat.lt_succ_self offset, hoffset⟩)
    · exact Traced.ensures_pure (.inl rfl)
  · refine Traced.ensures_bind (decode_stays hoffset) ?_
    rintro ⟨code, length⟩ _ ⟨rfl, hpos, hlength⟩
    dsimp only
    split
    · exact Traced.ensures_pure (.inl rfl)
    · refine Traced.ensures_bind (skip_stays length) ?_
      rintro _ _ rfl
      exact Traced.ensures_pure (.inr ⟨rfl, Nat.lt_add_of_pos_right hpos, hlength⟩)

theorem symbolStep_progresses : Traced.Progresses text.length (symbolStep text) := by
  intro state offset next behind hoffset hread
  rcases (symbolStep_stays hoffset).value _ hread with heq | ⟨_, hlt, _⟩
  · cases heq
  · exact hlt

variable (text)

/-- Passes the characters of a symbol. -/
def letters : Sweep Unit :=
  Traced.loop text.length (symbolStep text) symbolStep_progresses ()

/-- A symbol. It takes nothing where no symbol starts. -/
def symbol : Sweep TokenKind := do
  letters text
  pure .symbol

/-- A character that a round takes for the first one of a symbol stands at an offset. -/
inductive StartsSymbol (offset : Nat) : Prop
  | letter (hletter : isLetter (text[offset]?.getD 0).toNat = true)
      (hascii : (text[offset]?.getD 0).toNat < 0x80)
  | other {code length : Nat} (hother : 0x80 ≤ (text[offset]?.getD 0).toNat)
      (hdecode : (decode text offset).result = .ok ((code, length), offset))
      (hspace : code ≠ 0xA0) (htimes : isTimesSign code = false)
      (hsuperscript : isSuperscript code = false)

variable {text}

theorem symbolStep_of_startsSymbol (hstarts : StartsSymbol text offset) {read : Option Unit × Nat}
    (hread : (symbolStep text () offset).result = .ok read) : read.1 = some () := by
  cases hstarts with
  | letter hletter hascii =>
    simp [symbolStep, hletter, hascii] at hread
    rw [← hread]
  | other hother hdecode hspace htimes hsuperscript =>
    simp [symbolStep, Nat.not_lt.mpr hother, hdecode, endsSymbol, hspace, htimes, hsuperscript]
      at hread
    rw [← hread]

theorem letters_stays (hoffset : offset ≤ text.length) :
    Stays text (letters text offset) fun read ↦ offset ≤ read.2 ∧ read.2 ≤ text.length := by
  refine Traced.loop_ensures symbolStep_progresses
    (fun _ behind ↦ offset ≤ behind ∧ behind ≤ text.length) ?_ _ _
    ⟨Nat.le_refl _, hoffset⟩
  rintro state between hbetween ⟨hle, -⟩
  refine (symbolStep_stays hbetween).mono ?_
  rintro _ (rfl | ⟨-, hlt, hbehind⟩)
  · exact ⟨hle, Nat.le_of_lt hbetween⟩
  · exact ⟨Nat.le_of_lt (Nat.lt_of_le_of_lt hle hlt), hbehind⟩

/-- Where a round takes a character for the first one of a symbol, so does the symbol. -/
theorem symbol_advances (hstarts : StartsSymbol text offset) (hoffset : offset < text.length) :
    Advances text offset (symbol text offset) := by
  have hletters : Advances text offset (letters text offset) := by
    rw [letters, Traced.loop_of_lt symbolStep_progresses hoffset]
    refine (symbolStep_stays hoffset).bind fun read hread hstep ↦ ?_
    have hsome := symbolStep_of_startsSymbol hstarts hread
    rcases hstep with rfl | ⟨-, hlt, hle⟩
    · cases hsome
    · rw [hsome]
      exact (letters_stays hle).mono fun last ⟨hread, hlast⟩ ↦
        ⟨Nat.lt_of_lt_of_le hlt hread, hlast⟩
  exact Traced.ensures_bind hletters fun _ _ hadvance ↦ Traced.ensures_pure hadvance

end

/-! ### Tokens -/

section

variable (text : Text)

/-- Passes a character that is a token on its own, or a blank. -/
def pass (length : Nat) (kind? : Option TokenKind) : Sweep (Option TokenKind) := do
  skip length
  pure kind?

/-- The token that a reader finds. -/
def found (reader : Sweep TokenKind) : Sweep (Option TokenKind) := do
  let kind ← reader
  pure (some kind)

/-- What stands where the sweep is, from `0x80` on. -/
def nextBeyond : Sweep (Option TokenKind) := do
  let (code, length) ← decode text
  if code = 0xA0 then pass length none
  else if isTimesSign code then pass length (some .times)
  else if isSuperscript code then found (superscript text)
  else found (symbol text)

/-- What a byte below `0x80` begins that is no blank. -/
def nextAscii (byte : Nat) : Sweep (Option TokenKind) := do
  if Lexer.startsNumber byte then found (number text)
  else if byte = 42 then pass 1 (some .times)
  else if byte = 47 then pass 1 (some .divide)
  else if byte = 94 then pass 1 (some .caret)
  else if isLetter byte then found (symbol text)
  else
    let offset ← here
    refuse offset (.unexpectedCharacter byte)

/-- The kind of the token where the sweep is. A blank is none. -/
def nextKind : Sweep (Option TokenKind) := do
  let offset ← here
  let first ← byteAt text offset
  if isSpace first.toNat then pass 1 none
  else if 0x80 ≤ first.toNat then nextBeyond text
  else nextAscii text first.toNat

/-- A round of the loop over tokens. `spaced` says that blanks stand before it. -/
def round (spaced : Bool) : Sweep (Option Token) := do
  let start ← here
  match ← nextKind text with
  | none => pure none
  | some kind =>
    let stop ← here
    let lexeme ← slice text start stop
    pure (some ⟨kind, lexeme, start, spaced⟩)

variable {text} {offset : Nat}

theorem pass_advances {length : Nat} (kind? : Option TokenKind) (hpos : 0 < length)
    (hlength : offset + length ≤ text.length) :
    Advances text offset (pass length kind? offset) := by
  refine Traced.ensures_bind (skip_stays length) ?_
  rintro _ _ rfl
  exact Traced.ensures_pure ⟨Nat.lt_add_of_pos_right hpos, hlength⟩

theorem found_advances {reader : Sweep TokenKind} (hreader : Advances text offset (reader offset)) :
    Advances text offset (found reader offset) :=
  Traced.ensures_bind hreader fun _ _ hadvance ↦ Traced.ensures_pure hadvance

theorem nextBeyond_advances (hoffset : offset < text.length)
    (hother : 0x80 ≤ (text[offset]?.getD 0).toNat) :
    Advances text offset (nextBeyond text offset) := by
  refine (decode_stays hoffset).bind ?_
  rintro ⟨⟨code, length⟩, _⟩ hdecode ⟨rfl, hpos, hlength⟩
  dsimp only at *
  split
  · exact pass_advances none hpos hlength
  next hspace =>
  split
  · exact pass_advances (some .times) hpos hlength
  next htimes =>
  split
  · exact found_advances (superscript_advances hoffset)
  next hsuperscript =>
  exact found_advances (symbol_advances (.other hother hdecode hspace (by simpa using htimes)
    (by simpa using hsuperscript)) hoffset)

theorem nextAscii_advances (hoffset : offset < text.length)
    (hascii : (text[offset]?.getD 0).toNat < 0x80) :
    Advances text offset (nextAscii text (text[offset]?.getD 0).toNat offset) := by
  have hone : ∀ kind, Advances text offset (pass 1 (some kind) offset) :=
    fun kind ↦ pass_advances (some kind) Nat.one_pos hoffset
  rw [nextAscii]
  split
  · exact found_advances (number_advances hoffset)
  split
  · exact hone .times
  split
  · exact hone .divide
  split
  · exact hone .caret
  split
  · next hletter => exact found_advances (symbol_advances (.letter hletter hascii) hoffset)
  · exact Traced.ensures_bind here_stays fun _ _ _ ↦ refuse_stays _ _

theorem nextKind_advances (hoffset : offset < text.length) :
    Advances text offset (nextKind text offset) := by
  refine Traced.ensures_bind here_stays ?_
  rintro _ _ ⟨rfl, rfl⟩
  refine Traced.ensures_bind (byteAt_stays hoffset) ?_
  rintro first _ ⟨rfl, rfl⟩
  split
  · exact pass_advances none Nat.one_pos hoffset
  split
  · next hother => exact nextBeyond_advances hoffset hother
  · next hascii => exact nextAscii_advances hoffset (Nat.lt_of_not_le hascii)

/-- A round comes to a larger offset, or fails. -/
theorem round_advances (hoffset : offset < text.length) (spaced : Bool) :
    Advances text offset (round text spaced offset) := by
  refine Traced.ensures_bind here_stays ?_
  rintro _ _ ⟨rfl, rfl⟩
  refine Traced.ensures_bind (nextKind_advances hoffset) ?_
  rintro kind? stop ⟨hlt, hstop⟩
  cases kind? with
  | none => exact Traced.ensures_pure ⟨hlt, hstop⟩
  | some kind =>
    refine Traced.ensures_bind here_stays ?_
    rintro _ _ ⟨rfl, rfl⟩
    refine Traced.ensures_bind (slice_stays hstop) ?_
    rintro lexeme _ rfl
    exact Traced.ensures_pure ⟨hlt, hstop⟩

variable (text)

/-- A round behind the tokens that were read, and behind blanks or not. -/
def extend (read : List Token × Bool) : Sweep (Option (List Token × Bool)) := do
  match ← round text read.2 with
  | none => pure (some (read.1, true))
  | some token => pure (some (read.1 ++ [token], false))

/-- A round that reports that it begins. -/
def tokenStep (read : List Token × Bool) : Sweep (Option (List Token × Bool)) := fun offset ↦
  Traced.report (.round offset) >>= fun _ ↦ extend text read offset

variable {text}

/-- A round adds one token at most. -/
theorem extend_stays {read : List Token × Bool} (hoffset : offset < text.length) :
    Stays text (extend text read offset) fun next ↦
      (∃ tokens spaced, next.1 = some (tokens, spaced) ∧ tokens.length ≤ read.1.length + 1) ∧
        offset < next.2 ∧ next.2 ≤ text.length := by
  refine Traced.ensures_bind (round_advances hoffset read.2) ?_
  rintro token? behind hadvance
  cases token? with
  | none => exact Traced.ensures_pure ⟨⟨_, _, rfl, Nat.le_succ _⟩, hadvance⟩
  | some token => exact Traced.ensures_pure ⟨⟨_, _, rfl, by simp⟩, hadvance⟩

theorem tokenStep_ensures {read : List Token × Bool} (hoffset : offset < text.length) :
    (tokenStep text read offset).Ensures (fun event ↦ event.offset < text.length) fun next ↦
      (∃ tokens spaced, next.1 = some (tokens, spaced) ∧ tokens.length ≤ read.1.length + 1) ∧
        offset < next.2 ∧ next.2 ≤ text.length := by
  have hbegin : (Traced.report (.round offset) : Traced Event Lexer.Refusal Unit).Ensures
      (fun event ↦ event.offset < text.length) fun _ ↦ True := Traced.ensures_report hoffset
  exact hbegin.bind fun _ _ _ ↦ (extend_stays hoffset).allow fun _ hevent ↦ hevent.offset_lt

theorem tokenStep_progresses : Traced.Progresses text.length (tokenStep text) :=
  fun _ _ _ _ hoffset hread ↦ ((tokenStep_ensures hoffset).value _ hread).2.1

/-- A round reports its own beginning and no other. -/
theorem begun_tokenStep {read : List Token × Bool} (hoffset : offset < text.length) :
    begun (tokenStep text read offset).events = [offset] := by
  have hquiet : begun (extend text read offset).events = [] :=
    List.filterMap_eq_nil_iff.mpr fun event hevent ↦
      ((extend_stays hoffset).events event hevent).begun?_eq_none
  show offset :: begun (extend text read offset).events = [offset]
  rw [hquiet]

variable (text)

/-- The tokens of a text, ended by an end of input. -/
def tokens : Traced Event Lexer.Refusal (List Token) := do
  let ((read, spaced), _) ←
    Traced.loop text.length (tokenStep text) tokenStep_progresses ([], false) 0
  pure (read ++ [⟨.finish, [], text.length, spaced⟩])

variable {text}

/-- All bytes that are read are bytes of the text, and there are no more tokens than bytes and an
end of input. -/
theorem tokens_ensures : (tokens text).Ensures (fun event ↦ event.offset < text.length)
    fun read ↦ read.length ≤ text.length + 1 := by
  refine (Traced.loop_ensures tokenStep_progresses
    (fun read offset ↦ read.1.length ≤ offset ∧ offset ≤ text.length) ?_ ([], false) 0
    ⟨Nat.le_refl 0, Nat.zero_le _⟩).bind ?_
  · rintro read offset hoffset ⟨hlength, -⟩
    refine (tokenStep_ensures hoffset).mono ?_
    rintro ⟨_, behind⟩ ⟨⟨tokens, spaced, rfl, htokens⟩, hlt, hbehind⟩
    exact ⟨by dsimp only [Option.getD_some] at *; omega, hbehind⟩
  · rintro ⟨⟨read, spaced⟩, stop⟩ - ⟨hlength, hstop⟩
    exact Traced.ensures_pure (by simpa using Nat.le_trans hlength hstop)

/-- Rounds begin one behind the other. -/
theorem increasing_begun : (begun (tokens text).events).Pairwise (· < ·) ∧
    ∀ offset ∈ begun (tokens text).events, offset < text.length := by
  have hloop := Traced.increasing_marks tokenStep_progresses
    (fun read offset hoffset ↦ @begun_tokenStep text offset read hoffset) ([], false) 0
  have hevents : (tokens text).events =
      (Traced.loop text.length (tokenStep text) tokenStep_progresses ([], false) 0).events := by
    rw [tokens]
    cases hread : (Traced.loop text.length (tokenStep text) tokenStep_progresses
        ([], false) 0).result with
    | error refusal => rw [Traced.bind_of_error hread]
    | ok read =>
      rw [Traced.bind_of_ok hread]
      exact List.append_nil _
  rw [hevents]
  exact ⟨hloop.1, fun offset hoffset ↦ (hloop.2 offset hoffset).2⟩

end

end Sweep

end Metrology
