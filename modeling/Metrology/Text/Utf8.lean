import Metrology.Text.Basic

/-!
# UTF-8

Code points are natural numbers. `encode` writes the shortest form of one to four bytes of a code
point below `0x200000`; `decode` reads the code point at the start of a text and refuses every other
form. The four-byte scheme is taken whole: surrogates and code points above `0x10FFFF` have a form
like any other. `decodeAll` reads as many code points as a text starts with, together with the
fault that stopped it; `utf8` writes a string of the library itself.
-/

set_option autoImplicit false
set_option relaxedAutoImplicit false

namespace Metrology

namespace Utf8

/-- Why no code point can be read at the start of a text. -/
inductive Fault where
  /-- The first byte starts no form, a later byte continues none, or a shorter form exists. -/
  | malformed
  /-- The text ends inside the form that its first byte announces. -/
  | truncated
  deriving DecidableEq, Repr

/-- The shortest form of a code point below `0x200000`. -/
def encode (code : Nat) : Text :=
  if code < 0x80 then [code.toUInt8]
  else if code < 0x800 then
    [(0xC0 + code / 0x40).toUInt8, (0x80 + code % 0x40).toUInt8]
  else if code < 0x10000 then
    [(0xE0 + code / 0x1000).toUInt8, (0x80 + code / 0x40 % 0x40).toUInt8,
      (0x80 + code % 0x40).toUInt8]
  else
    [(0xF0 + code / 0x40000).toUInt8, (0x80 + code / 0x1000 % 0x40).toUInt8,
      (0x80 + code / 0x40 % 0x40).toUInt8, (0x80 + code % 0x40).toUInt8]

/-- The text of a list of code points. -/
def encodeAll (codes : List Nat) : Text :=
  codes.flatMap encode

/-- The number of bytes that a code point takes. -/
def size (code : Nat) : Nat :=
  (encode code).length

/-- The number of bytes that a list of code points takes. -/
def sizeAll (codes : List Nat) : Nat :=
  (encodeAll codes).length

/-- The six payload bits of a continuation byte. -/
def payload? (byte : UInt8) : Option Nat :=
  if 0x80 ≤ byte.toNat ∧ byte.toNat < 0xC0 then some (byte.toNat - 0x80) else none

/-- Appends the payloads of `count` continuation bytes to the bits read so far. -/
def continuation? : (count : Nat) → (bits : Nat) → Text → Option (Nat × Text)
  | 0, bits, text => some (bits, text)
  | _ + 1, _, [] => none
  | count + 1, bits, byte :: rest =>
    (payload? byte).bind fun six ↦ continuation? count (bits * 0x40 + six) rest

/-- A form of `count` continuation bytes, whose code point has to be at least `least`. The length of
the text is checked before its bytes. -/
def form (count least bits : Nat) (rest : Text) : Except Fault (Nat × Text) :=
  if rest.length < count then .error .truncated
  else match continuation? count bits rest with
    | some (code, rest) => if code < least then .error .malformed else .ok (code, rest)
    | none => .error .malformed

/-- The code point after a first byte, and the rest of the text. -/
def decode (lead : UInt8) (rest : Text) : Except Fault (Nat × Text) :=
  let byte := lead.toNat
  if byte < 0x80 then .ok (byte, rest)
  else if byte < 0xC0 then .error .malformed
  else if byte < 0xE0 then form 1 0x80 (byte - 0xC0) rest
  else if byte < 0xF0 then form 2 0x800 (byte - 0xE0) rest
  else if byte < 0xF8 then form 3 0x10000 (byte - 0xF0) rest
  else .error .malformed

theorem length_of_continuation? {count bits code : Nat} {text rest : Text}
    (h : continuation? count bits text = some (code, rest)) :
    text.length = rest.length + count := by
  induction count generalizing bits text with
  | zero => simp_all [continuation?]
  | succ count ih =>
    cases text with
    | nil => simp [continuation?] at h
    | cons byte tail =>
      obtain ⟨six, _, hrest⟩ := Option.bind_eq_some_iff.mp h
      simp [ih hrest]
      omega

theorem form_length_le {count least bits code : Nat} {text rest : Text}
    (h : form count least bits text = .ok (code, rest)) : rest.length ≤ text.length := by
  unfold form at h
  split at h
  · simp at h
  · split at h
    · next hcontinuation =>
      have hlength := length_of_continuation? hcontinuation
      split at h
      · simp at h
      · simp only [Except.ok.injEq, Prod.mk.injEq] at h
        obtain ⟨_, rfl⟩ := h
        omega
    · simp at h

/-- Decoding consumes the first byte at least. -/
theorem decode_length_le {lead : UInt8} {code : Nat} {text rest : Text}
    (h : decode lead text = .ok (code, rest)) : rest.length ≤ text.length := by
  simp only [decode] at h
  split at h
  · simp_all
  · split at h
    · simp at h
    · split at h
      · exact form_length_le h
      · split at h
        · exact form_length_le h
        · split at h
          · exact form_length_le h
          · simp at h

/-- The code points that a text starts with, and the fault after them when they are not all. -/
def decodeAll : Text → List Nat × Option Fault
  | [] => ([], none)
  | lead :: rest =>
    match _hdecode : decode lead rest with
    | .ok (code, tail) =>
      let (codes, fault) := decodeAll tail
      (code :: codes, fault)
    | .error fault => ([], some fault)
  termination_by text => text.length
  decreasing_by
    have := decode_length_le _hdecode
    simp only [List.length_cons]
    omega

end Utf8

/-- The UTF-8 text of a string. -/
def utf8 (string : String) : Text :=
  Utf8.encodeAll (string.toList.map Char.toNat)

end Metrology
