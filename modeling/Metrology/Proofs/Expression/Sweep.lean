import Metrology.Expression.Lexer
import Metrology.Numeric.Leading
import Metrology.Proofs.Fallible
import Metrology.Proofs.Traced

/-!
# Sweeping over a text by offset

`Token.ofText` takes lists of code points apart. A sweep reads the same text by byte offset, and
reports every byte that it reads: it decodes a code point where it stands, and passes the digits of
numbers one after another. What it reads are bytes of the text (`Sweep.Stays`). Decoding finds a
form that is not empty and ends within the text (`Sweep.decode_stays`), and a number comes to a
larger offset or fails, because it has a digit (`Sweep.number_advances`).
-/

set_option autoImplicit false
set_option relaxedAutoImplicit false

namespace Metrology

namespace Sweep

/-- What a sweep does. -/
inductive Event where
  /-- The byte at an offset is read. -/
  | read (offset : Nat)
  /-- A round of the loop over tokens begins at an offset. -/
  | round (offset : Nat)
  deriving DecidableEq

/-- The offset that an event is about. -/
def Event.offset : Event → Nat
  | read offset => offset
  | round offset => offset

/-- The offset where a round begins. -/
def Event.begun? : Event → Option Nat
  | read _ => none
  | round offset => some offset

/-- The offsets where rounds begin. -/
def begun (events : List Event) : List Nat :=
  events.filterMap Event.begun?

end Sweep

/-- A sweep over a text, from a byte offset on. -/
abbrev Sweep := StateT Nat (Traced Sweep.Event Lexer.Refusal)

namespace Sweep

/-! ### Reading bytes -/

section

variable (text : Text) {α : Type}

/-- The offset where the sweep is. -/
def here : Sweep Nat := fun offset ↦ pure (offset, offset)

/-- Goes on at another offset. -/
def goTo (target : Nat) : Sweep Unit := fun _ ↦ pure ((), target)

/-- Passes bytes. -/
def skip (count : Nat) : Sweep Unit := fun offset ↦ pure ((), offset + count)

/-- A refusal at a position. -/
def refuse (position : Nat) (fault : LexicalFault) : Sweep α := fun _ ↦
  .ofExcept (.error ⟨fault, position⟩)

/-- The byte at an offset, which does not have to be where the sweep is. -/
def byteAt (target : Nat) : Sweep UInt8 := fun offset ↦
  ⟨[.read target], .ok (text[target]?.getD 0, offset)⟩

/-- The bytes from a start on up to a stop. -/
def slice (start stop : Nat) : Sweep Text := fun offset ↦
  ⟨(List.range' start (stop - start)).map .read,
    .ok ((text.drop start).take (stop - start), offset)⟩

@[simp] theorem result_here (offset : Nat) : (here offset).result = .ok (offset, offset) := rfl

@[simp] theorem result_goTo (target offset : Nat) :
    (goTo target offset).result = .ok ((), target) := rfl

@[simp] theorem result_skip (count offset : Nat) :
    (skip count offset).result = .ok ((), offset + count) := rfl

@[simp] theorem result_refuse (position : Nat) (fault : LexicalFault) (offset : Nat) :
    (refuse position fault offset : Traced Event _ (α × Nat)).result =
      .error ⟨fault, position⟩ := rfl

@[simp] theorem result_byteAt (target offset : Nat) :
    (byteAt text target offset).result = .ok (text[target]?.getD 0, offset) := rfl

@[simp] theorem result_slice (start stop offset : Nat) : (slice text start stop offset).result =
    .ok ((text.drop start).take (stop - start), offset) := rfl

/-- Looks whether there is a byte that passes a test. -/
def sees (test : Nat → Bool) : Sweep Bool := do
  let offset ← here
  if offset < text.length then
    let byte ← byteAt text offset
    pure (test byte.toNat)
  else pure false

/-! ### Code points -/

/-- The code point of a form whose last `count` bytes stand from a target on. -/
def continuation : (count bits target : Nat) → Sweep Nat
  | 0, bits, _ => pure bits
  | count + 1, bits, target => do
    let byte ← byteAt text target
    match Utf8.payload? byte with
    | some six => continuation count (bits * 0x40 + six) (target + 1)
    | none =>
      let offset ← here
      refuse offset (.encoding .malformed)

/-- The code point and the length of a form of `count` bytes behind the first one. -/
def form (count least bits : Nat) : Sweep (Nat × Nat) := do
  let offset ← here
  if text.length < offset + (count + 1) then refuse offset (.encoding .truncated)
  else
    let code ← continuation text count bits (offset + 1)
    if code < least then refuse offset (.encoding .malformed) else pure (code, count + 1)

/-- The code point where the sweep is, and its length. -/
def decode : Sweep (Nat × Nat) := do
  let offset ← here
  let lead ← byteAt text offset
  let byte := lead.toNat
  if byte < 0x80 then pure (byte, 1)
  else if byte < 0xC0 then refuse offset (.encoding .malformed)
  else if byte < 0xE0 then form text 1 0x80 (byte - 0xC0)
  else if byte < 0xF0 then form text 2 0x800 (byte - 0xE0)
  else if byte < 0xF8 then form text 3 0x10000 (byte - 0xF0)
  else refuse offset (.encoding .malformed)

end

/-! ### What is read -/

section

variable {text : Text} {α : Type} {offset : Nat}

/-- A byte of the text is read. -/
def Event.IsReadOf (text : Text) : Event → Prop
  | read offset => offset < text.length
  | round _ => False

theorem Event.IsReadOf.offset_lt {event : Event} (hevent : event.IsReadOf text) :
    event.offset < text.length := by
  cases event with
  | read offset => exact hevent
  | round offset => exact hevent.elim

theorem Event.IsReadOf.begun?_eq_none {event : Event} (hevent : event.IsReadOf text) :
    event.begun? = none := by
  cases event with
  | read offset => rfl
  | round offset => exact hevent.elim

/-- A part of a sweep reads bytes of the text only, and fails or comes to what is required. -/
abbrev Stays (text : Text) (run : Traced Event Lexer.Refusal (α × Nat))
    (required : α × Nat → Prop) : Prop :=
  run.Ensures (Event.IsReadOf text) required

/-- A part of a sweep reads bytes of the text only, and fails or comes to a larger offset that is
not beyond the end. -/
abbrev Advances (text : Text) (offset : Nat) (run : Traced Event Lexer.Refusal (α × Nat)) : Prop :=
  Stays text run fun read ↦ offset < read.2 ∧ read.2 ≤ text.length

theorem here_stays : Stays text (here offset) fun read ↦ read = (offset, offset) :=
  Traced.ensures_pure rfl

theorem goTo_stays (target : Nat) : Stays text (goTo target offset) fun read ↦ read.2 = target :=
  Traced.ensures_pure rfl

theorem skip_stays (count : Nat) :
    Stays text (skip count offset) fun read ↦ read.2 = offset + count :=
  Traced.ensures_pure rfl

theorem refuse_stays {required : α × Nat → Prop} (position : Nat) (fault : LexicalFault) :
    Stays text (refuse position fault offset) required :=
  Traced.ensures_error _

theorem byteAt_stays {target : Nat} (htarget : target < text.length) :
    Stays text (byteAt text target offset) fun read ↦ read = (text[target]?.getD 0, offset) := by
  refine ⟨fun event hevent ↦ ?_, fun read hread ↦ (Except.ok.inj hread).symm⟩
  rw [List.mem_singleton.mp hevent]
  exact htarget

theorem slice_stays {start stop : Nat} (hstop : stop ≤ text.length) :
    Stays text (slice text start stop offset) fun read ↦ read.2 = offset := by
  refine ⟨fun event hevent ↦ ?_, fun read hread ↦ (Except.ok.inj hread) ▸ rfl⟩
  obtain ⟨target, htarget, rfl⟩ := List.mem_map.mp hevent
  have hbelow := List.mem_range'_1.mp htarget
  show target < text.length
  omega

theorem sees_stays (test : Nat → Bool) : Stays text (sees text test offset) fun read ↦
    read.2 = offset ∧ (read.1 = true → offset < text.length) := by
  refine Traced.ensures_bind here_stays ?_
  rintro _ _ ⟨rfl, rfl⟩
  split
  · next hoffset =>
    refine Traced.ensures_bind (byteAt_stays hoffset) ?_
    rintro byte _ ⟨rfl, rfl⟩
    exact Traced.ensures_pure ⟨rfl, fun _ ↦ hoffset⟩
  · exact Traced.ensures_pure ⟨rfl, by simp⟩

theorem continuation_stays {count bits target : Nat} (htarget : target + count ≤ text.length) :
    Stays text (continuation text count bits target offset) fun read ↦ read.2 = offset := by
  induction count generalizing bits target with
  | zero => exact Traced.ensures_pure rfl
  | succ count ih =>
    refine Traced.ensures_bind (byteAt_stays (by omega)) ?_
    rintro byte _ ⟨rfl, rfl⟩
    cases Utf8.payload? (text[target]?.getD 0) with
    | some six => exact ih (by omega)
    | none => exact Traced.ensures_bind here_stays fun _ _ _ ↦ refuse_stays _ _

theorem form_stays (count least bits : Nat) : Stays text (form text count least bits offset)
    fun read ↦ read.2 = offset ∧ 0 < read.1.2 ∧ offset + read.1.2 ≤ text.length := by
  refine Traced.ensures_bind here_stays ?_
  rintro _ _ ⟨rfl, rfl⟩
  split
  · exact refuse_stays _ _
  · next hlength =>
    refine Traced.ensures_bind (continuation_stays (by omega)) ?_
    rintro code _ rfl
    split
    · exact refuse_stays _ _
    · exact Traced.ensures_pure ⟨rfl, Nat.succ_pos count, Nat.le_of_not_lt hlength⟩

theorem decode_stays (hoffset : offset < text.length) : Stays text (decode text offset)
    fun read ↦ read.2 = offset ∧ 0 < read.1.2 ∧ offset + read.1.2 ≤ text.length := by
  refine Traced.ensures_bind here_stays ?_
  rintro _ _ ⟨rfl, rfl⟩
  refine Traced.ensures_bind (byteAt_stays hoffset) ?_
  rintro lead _ ⟨rfl, rfl⟩
  dsimp only
  split
  · exact Traced.ensures_pure ⟨rfl, Nat.one_pos, hoffset⟩
  split
  · exact refuse_stays _ _
  split
  · exact form_stays _ _ _
  split
  · exact form_stays _ _ _
  split
  · exact form_stays _ _ _
  · exact refuse_stays _ _

end

/-! ### Numbers -/

/-- The signs of numbers. -/
def isSign (byte : Nat) : Bool :=
  byte == 43 || byte == 45

section

variable (text : Text)

/-- Passes a digit, and counts it. -/
def digitStep (count : Nat) : Sweep (Option Nat) := do
  let offset ← here
  let byte ← byteAt text offset
  if isDigit byte.toNat then
    skip 1
    pure (some (count + 1))
  else pure none

variable {text} {offset : Nat}

theorem digitStep_stays {count : Nat} (hoffset : offset < text.length) :
    Stays text (digitStep text count offset) fun read ↦
      read = (none, offset) ∨ read = (some (count + 1), offset + 1) := by
  refine Traced.ensures_bind here_stays ?_
  rintro _ _ ⟨rfl, rfl⟩
  refine Traced.ensures_bind (byteAt_stays hoffset) ?_
  rintro byte _ ⟨rfl, rfl⟩
  split
  · refine Traced.ensures_bind (skip_stays 1) ?_
    rintro _ _ rfl
    exact Traced.ensures_pure (.inr rfl)
  · exact Traced.ensures_pure (.inl rfl)

theorem digitStep_progresses : Traced.Progresses text.length (digitStep text) := by
  intro count offset next behind hoffset hread
  rcases (digitStep_stays hoffset).value _ hread with heq | heq
  · cases heq
  · cases heq
    exact Nat.lt_succ_self offset

variable (text)

/-- Passes digits, and adds their number to a count. -/
def digits (count : Nat) : Sweep Nat :=
  Traced.loop text.length (digitStep text) digitStep_progresses count

/-- Passes a point and the digits behind it, if there is one. What it comes to is the number of all
digits and whether there is a point. -/
def fraction (whole : Nat) : Sweep (Nat × Bool) := do
  if ← sees text (· == 46) then
    skip 1
    let all ← digits text whole
    pure (all, true)
  else pure (whole, false)

/-- Passes the sign, the digits and the point of a number. -/
def mantissa : Sweep (Nat × Bool) := do
  let start ← here
  let first ← byteAt text start
  skip (if isSign first.toNat then 1 else 0)
  let whole ← digits text 0
  fraction text whole

/-- Passes the exponent part of a number, if there is one. A letter without digits behind it is
none, and is not passed. -/
def exponentPart : Sweep Bool := do
  if ← sees text fun byte ↦ byte == 101 || byte == 69 then
    let letter ← here
    skip 1
    let signed ← sees text isSign
    skip (if signed then 1 else 0)
    if ← sees text isDigit then
      let _digits ← digits text 0
      pure true
    else
      goTo letter
      pure false
  else pure false

/-- The number from a start on. A point or an exponent part makes it no integer. -/
def literal (start : Nat) (pointed scaled : Bool) : Sweep TokenKind := do
  let stop ← here
  if ← sees text fun byte ↦ byte == 46 || isDigit byte then
    let malformed ← slice text start (stop + 1)
    refuse start (.malformedNumber malformed)
  else
    let written ← slice text start stop
    match Leading.double? written with
    | some value =>
      let integer? := (Numeral.scan (written.map UInt8.toNat)).bind (·.1.integer?)
      pure (.number value (if pointed || scaled then none else integer?))
    | none => refuse start (.numberOutOfRange written)

/-- A number. -/
def number : Sweep TokenKind := do
  let start ← here
  let (count, pointed) ← mantissa text
  if count = 0 then
    let stop ← here
    let malformed ← slice text start stop
    refuse start (.malformedNumber malformed)
  else
    let scaled ← exponentPart text
    literal text start pointed scaled

variable {text}

/-- Every digit takes a byte. -/
theorem digits_stays (count : Nat) (hoffset : offset ≤ text.length) :
    Stays text (digits text count offset) fun read ↦
      count ≤ read.1 ∧ read.1 + offset = count + read.2 ∧ read.2 ≤ text.length := by
  refine Traced.loop_ensures digitStep_progresses
    (fun all behind ↦
      count ≤ all ∧ all + offset = count + behind ∧ behind ≤ text.length) ?_ count offset
    ⟨Nat.le_refl _, rfl, hoffset⟩
  rintro all behind hbehind ⟨hcount, hall, -⟩
  refine (digitStep_stays hbehind).mono ?_
  rintro _ (rfl | rfl)
  · exact ⟨hcount, hall, Nat.le_of_lt hbehind⟩
  · exact ⟨Nat.le_succ_of_le hcount, by simp only [Option.getD_some]; omega, hbehind⟩

theorem fraction_stays (whole : Nat) (hoffset : offset ≤ text.length) :
    Stays text (fraction text whole offset) fun read ↦
      read.1.1 + offset ≤ whole + read.2 ∧ read.2 ≤ text.length := by
  refine Traced.ensures_bind (sees_stays _) ?_
  rintro pointed _ ⟨rfl, hseen⟩
  split
  · next hpointed =>
    refine Traced.ensures_bind (skip_stays 1) ?_
    rintro _ _ rfl
    refine Traced.ensures_bind (digits_stays whole (hseen hpointed)) ?_
    rintro all stop ⟨-, hall, hstop⟩
    exact Traced.ensures_pure ⟨by dsimp only at *; omega, hstop⟩
  · exact Traced.ensures_pure ⟨Nat.le_refl _, hoffset⟩

/-- The sign, if any, is not beyond the end, and every digit takes a byte. -/
theorem mantissa_stays (hoffset : offset < text.length) :
    Stays text (mantissa text offset) fun read ↦
      offset + read.1.1 ≤ read.2 ∧ read.2 ≤ text.length := by
  refine Traced.ensures_bind here_stays ?_
  rintro _ _ ⟨rfl, rfl⟩
  refine Traced.ensures_bind (byteAt_stays hoffset) ?_
  rintro first _ ⟨rfl, rfl⟩
  refine Traced.ensures_bind (skip_stays _) ?_
  rintro _ unsigned hunsigned
  have hsign : offset ≤ unsigned ∧ unsigned ≤ text.length := by
    dsimp only at hunsigned
    split at hunsigned <;> omega
  refine Traced.ensures_bind (digits_stays 0 hsign.2) ?_
  rintro whole point ⟨-, hwhole, hpoint⟩
  refine (fraction_stays whole hpoint).mono ?_
  rintro ⟨⟨all, pointed⟩, stop⟩ ⟨hall, hstop⟩
  exact ⟨by dsimp only at *; omega, hstop⟩

theorem exponentPart_stays (hoffset : offset ≤ text.length) :
    Stays text (exponentPart text offset) fun read ↦ offset ≤ read.2 ∧ read.2 ≤ text.length := by
  refine Traced.ensures_bind (sees_stays _) ?_
  rintro letter _ ⟨rfl, hletter⟩
  split
  · next hseen =>
    refine Traced.ensures_bind here_stays ?_
    rintro _ _ ⟨rfl, rfl⟩
    refine Traced.ensures_bind (skip_stays 1) ?_
    rintro _ _ rfl
    refine Traced.ensures_bind (sees_stays _) ?_
    rintro signed _ ⟨rfl, hsigned⟩
    refine Traced.ensures_bind (skip_stays _) ?_
    rintro _ unsigned hunsigned
    refine Traced.ensures_bind (sees_stays _) ?_
    rintro digit _ ⟨rfl, hdigit⟩
    split
    · next hsome =>
      refine Traced.ensures_bind (digits_stays 0 (Nat.le_of_lt (hdigit hsome))) ?_
      rintro count stop ⟨-, hcount, hstop⟩
      exact Traced.ensures_pure ⟨by dsimp only at *; omega, hstop⟩
    · refine Traced.ensures_bind (goTo_stays _) ?_
      rintro _ _ rfl
      exact Traced.ensures_pure ⟨Nat.le_refl _, hoffset⟩
  · exact Traced.ensures_pure ⟨Nat.le_refl _, hoffset⟩

theorem literal_stays (hoffset : offset ≤ text.length) (start : Nat) (pointed scaled : Bool) :
    Stays text (literal text start pointed scaled offset) fun read ↦ read.2 = offset := by
  refine Traced.ensures_bind here_stays ?_
  rintro _ _ ⟨rfl, rfl⟩
  refine Traced.ensures_bind (sees_stays _) ?_
  rintro seen _ ⟨rfl, hseen⟩
  split
  · next hfollowed =>
    exact Traced.ensures_bind (slice_stays (hseen hfollowed)) fun _ _ _ ↦ refuse_stays _ _
  · refine Traced.ensures_bind (slice_stays hoffset) ?_
    rintro written _ rfl
    cases Leading.double? written with
    | none => exact refuse_stays _ _
    | some value => exact Traced.ensures_pure rfl

/-- A number has a digit. -/
theorem number_advances (hoffset : offset < text.length) :
    Advances text offset (number text offset) := by
  refine Traced.ensures_bind here_stays ?_
  rintro _ _ ⟨rfl, rfl⟩
  refine Traced.ensures_bind (mantissa_stays hoffset) ?_
  rintro ⟨count, pointed⟩ behind ⟨hdigits, hbehind⟩
  dsimp only at *
  split
  · refine Traced.ensures_bind here_stays ?_
    rintro _ _ ⟨rfl, rfl⟩
    exact Traced.ensures_bind (slice_stays hbehind) fun _ _ _ ↦ refuse_stays _ _
  · refine Traced.ensures_bind (exponentPart_stays hbehind) ?_
    rintro scaled stop ⟨hle, hstop⟩
    refine (literal_stays hstop _ _ _).mono ?_
    rintro ⟨kind, _⟩ rfl
    exact ⟨by dsimp only at *; omega, hstop⟩

end

end Sweep

end Metrology
