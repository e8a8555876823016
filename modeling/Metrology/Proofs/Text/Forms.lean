import Metrology.Proofs.Text.Utf8

/-!
# The forms of code points

A code point has forms of one to four bytes: the first byte says how many follow, and each of these
carries six more bits (`IsForm`). Decoding accepts the shortest form of every code point below
`0x200000` and no other (`decode_eq_ok_iff`). It reports a form that is cut short exactly when the
text is shorter than its first byte announces (`decode_eq_truncated_iff`), and otherwise it looks at
no byte behind the announced ones (`decode_append_eq_map`).
-/

set_option autoImplicit false
set_option relaxedAutoImplicit false

namespace Metrology.Utf8

/-- The forms of a code point, some longer than they have to be. -/
inductive IsForm : Text → Nat → Prop
  | one {code : Nat} (hcode : code < 0x80) : IsForm [code.toUInt8] code
  | two {high last : Nat} (hhigh : high < 0x20) (hlast : last < 0x40) :
      IsForm [(0xC0 + high).toUInt8, (0x80 + last).toUInt8] (high * 0x40 + last)
  | three {high middle last : Nat} (hhigh : high < 0x10) (hmiddle : middle < 0x40)
      (hlast : last < 0x40) :
      IsForm [(0xE0 + high).toUInt8, (0x80 + middle).toUInt8, (0x80 + last).toUInt8]
        ((high * 0x40 + middle) * 0x40 + last)
  | four {high second third last : Nat} (hhigh : high < 0x08) (hsecond : second < 0x40)
      (hthird : third < 0x40) (hlast : last < 0x40) :
      IsForm [(0xF0 + high).toUInt8, (0x80 + second).toUInt8, (0x80 + third).toUInt8,
        (0x80 + last).toUInt8] (((high * 0x40 + second) * 0x40 + third) * 0x40 + last)

/-- A form of a code point that has no shorter one. -/
structure IsShortestForm (form : Text) (code : Nat) : Prop where
  isForm : IsForm form code
  length_le : ∀ other, IsForm other code → form.length ≤ other.length

/-! ### The form that is written -/

theorem isForm_encode {code : Nat} (hcode : code < 0x200000) : IsForm (encode code) code := by
  have hdivide : ∀ number : Nat, number = number / 0x40 * 0x40 + number % 0x40 := by omega
  unfold encode
  split
  · next hone => exact .one hone
  split
  · have hform := @IsForm.two (code / 0x40) (code % 0x40) (by omega) (by omega)
    rwa [← hdivide] at hform
  split
  · have hform := @IsForm.three (code / 0x1000) (code / 0x40 % 0x40) (code % 0x40) (by omega)
      (by omega) (by omega)
    rwa [show (code / 0x1000 * 0x40 + code / 0x40 % 0x40) * 0x40 + code % 0x40 = code by omega]
      at hform
  · have hform := @IsForm.four (code / 0x40000) (code / 0x1000 % 0x40) (code / 0x40 % 0x40)
      (code % 0x40) (by omega) (by omega) (by omega) (by omega)
    rwa [show ((code / 0x40000 * 0x40 + code / 0x1000 % 0x40) * 0x40 + code / 0x40 % 0x40) * 0x40 +
      code % 0x40 = code by omega] at hform

theorem length_encode (code : Nat) : (encode code).length =
    if code < 0x80 then 1 else if code < 0x800 then 2 else if code < 0x10000 then 3 else 4 := by
  unfold encode
  split
  · rfl
  split
  · rfl
  split <;> rfl

namespace IsForm

variable {form : Text} {code : Nat} (hform : IsForm form code)

include hform

theorem lt : code < 0x200000 := by
  cases hform <;> omega

/-- No form is shorter than the written one. -/
theorem length_encode_le : (encode code).length ≤ form.length := by
  rw [length_encode]
  cases hform with
  | one hcode => simp [hcode]
  | two hhigh hlast =>
    split
    · simp
    · rw [if_pos (by omega)]
      exact Nat.le_refl _
  | three hhigh hmiddle hlast =>
    split
    · simp
    split
    · simp
    · rw [if_pos (by omega)]
      exact Nat.le_refl _
  | four hhigh hsecond hthird hlast =>
    split
    · simp
    split
    · simp
    split <;> simp

/-- A form that is no longer than the written one is that one. -/
theorem eq_encode (hlength : form.length ≤ (encode code).length) : form = encode code := by
  rw [length_encode] at hlength
  -- the length bounds the code point from below, so that `encode` takes the case of the form
  cases hform with
  | one hcode => rw [encode, if_pos hcode]
  | @two high last hhigh hlast =>
    have hleast : ¬ high * 0x40 + last < 0x80 := by
      intro hlt
      simp [hlt] at hlength
    rw [encode, if_neg hleast, if_pos (by omega), show (high * 0x40 + last) / 0x40 = high by omega,
      show (high * 0x40 + last) % 0x40 = last by omega]
  | @three high middle last hhigh hmiddle hlast =>
    generalize hcode : (high * 0x40 + middle) * 0x40 + last = code at hlength ⊢
    have hleast : ¬ code < 0x800 := by
      intro hlt
      split at hlength <;> simp at hlength
    rw [encode, if_neg (by omega), if_neg hleast, if_pos (by omega),
      show code / 0x1000 = high by omega, show code / 0x40 % 0x40 = middle by omega,
      show code % 0x40 = last by omega]
  | @four high second third last hhigh hsecond hthird hlast =>
    generalize hcode : ((high * 0x40 + second) * 0x40 + third) * 0x40 + last = code at hlength ⊢
    have hleast : ¬ code < 0x10000 := by
      intro hlt
      split at hlength
      · simp at hlength
      · split at hlength <;> simp at hlength
    rw [encode, if_neg (by omega), if_neg (by omega), if_neg hleast,
      show code / 0x40000 = high by omega, show code / 0x1000 % 0x40 = second by omega,
      show code / 0x40 % 0x40 = third by omega, show code % 0x40 = last by omega]

end IsForm

/-- Every code point below `0x200000` has one shortest form, which is the written one. -/
theorem isShortestForm_iff {form : Text} {code : Nat} :
    IsShortestForm form code ↔ code < 0x200000 ∧ form = encode code := by
  constructor
  · rintro ⟨hform, hshortest⟩
    exact ⟨hform.lt, hform.eq_encode (hshortest _ (isForm_encode hform.lt))⟩
  · rintro ⟨hcode, rfl⟩
    exact ⟨isForm_encode hcode, fun other hother ↦ hother.length_encode_le⟩

/-! ### What is accepted -/

/-- Decoding accepts the shortest forms, and leaves what comes behind them. -/
theorem decode_eq_ok_iff {lead : UInt8} {rest after : Text} {code : Nat} :
    decode lead rest = .ok (code, after) ↔
      ∃ form, IsShortestForm form code ∧ lead :: rest = form ++ after := by
  constructor
  · intro hread
    exact ⟨_, isShortestForm_iff.mpr ⟨lt_of_decode hread, rfl⟩, (encode_of_decode hread).symm⟩
  · rintro ⟨form, hform, htext⟩
    obtain ⟨hcode, rfl⟩ := isShortestForm_iff.mp hform
    obtain ⟨first, others, hencode, hread⟩ := exists_decode_encode hcode after
    rw [hencode] at htext
    cases htext
    exact hread

/-- No two code points share a shortest form. -/
theorem IsShortestForm.unique {form : Text} {first second : Nat}
    (hfirst : IsShortestForm form first) (hsecond : IsShortestForm form second) :
    first = second := by
  obtain ⟨hlt, rfl⟩ := isShortestForm_iff.mp hfirst
  obtain ⟨lead, rest, hencode, hread⟩ := exists_decode_encode hlt []
  have hother := decode_eq_ok_iff.mpr ⟨_, hsecond, hencode.symm⟩
  rw [hread] at hother
  cases hother
  rfl

/-! ### What is cut short -/

/-- A first byte starts forms of a length. -/
def Announces (lead : UInt8) (length : Nat) : Prop :=
  ∃ tail code, IsForm (lead :: tail) code ∧ tail.length + 1 = length

theorem announces_iff {lead : UInt8} {length : Nat} : Announces lead length ↔
    lead.toNat < 0x80 ∧ length = 1 ∨
      0xC0 ≤ lead.toNat ∧ lead.toNat < 0xE0 ∧ length = 2 ∨
      0xE0 ≤ lead.toNat ∧ lead.toNat < 0xF0 ∧ length = 3 ∨
      0xF0 ≤ lead.toNat ∧ lead.toNat < 0xF8 ∧ length = 4 := by
  constructor
  · rintro ⟨tail, code, hform, rfl⟩
    cases hform with
    | one hcode => exact .inl ⟨by rwa [toNat_toUInt8 (by omega)], rfl⟩
    | two =>
      rw [toNat_toUInt8 (by omega)]
      exact .inr (.inl ⟨by omega, by omega, rfl⟩)
    | three =>
      rw [toNat_toUInt8 (by omega)]
      exact .inr (.inr (.inl ⟨by omega, by omega, rfl⟩))
    | four =>
      rw [toNat_toUInt8 (by omega)]
      exact .inr (.inr (.inr ⟨by omega, by omega, rfl⟩))
  · have hlead : ∀ marker, marker ≤ lead.toNat →
        (marker + (lead.toNat - marker)).toUInt8 = lead :=
      fun marker hmarker ↦ toUInt8_eq_of_toNat_eq (by omega)
    rintro (⟨hone, rfl⟩ | ⟨hleast, hlt, rfl⟩ | ⟨hleast, hlt, rfl⟩ | ⟨hleast, hlt, rfl⟩)
    · have hform := IsForm.one hone
      rw [toUInt8_eq_of_toNat_eq rfl] at hform
      exact ⟨_, _, hform, rfl⟩
    · have hform := @IsForm.two (lead.toNat - 0xC0) 0 (by omega) (by omega)
      rw [hlead _ hleast] at hform
      exact ⟨_, _, hform, rfl⟩
    · have hform := @IsForm.three (lead.toNat - 0xE0) 0 0 (by omega) (by omega) (by omega)
      rw [hlead _ hleast] at hform
      exact ⟨_, _, hform, rfl⟩
    · have hform := @IsForm.four (lead.toNat - 0xF0) 0 0 0 (by omega) (by omega) (by omega)
        (by omega)
      rw [hlead _ hleast] at hform
      exact ⟨_, _, hform, rfl⟩

/-- A form of announced bytes is cut short when there are fewer of them. -/
theorem form_eq_truncated_iff {lead : UInt8} {count least bits : Nat} {rest : Text}
    (hlead : Announces lead (count + 1)) : form count least bits rest = .error .truncated ↔
      ∃ length, Announces lead length ∧ (lead :: rest).length < length := by
  have hunique : ∀ length, Announces lead length → length = count + 1 := by
    intro length hother
    rw [announces_iff] at hlead hother
    omega
  have hexists : (∃ length, Announces lead length ∧ (lead :: rest).length < length) ↔
      rest.length < count := by
    rw [List.length_cons]
    constructor
    · rintro ⟨length, hother, hlength⟩
      rw [hunique length hother] at hlength
      omega
    · intro hlength
      exact ⟨count + 1, hlead, by omega⟩
  rw [hexists]
  unfold form
  split
  · next hlength => simpa using hlength
  · next hlength =>
    split
    · split <;> simp [hlength]
    · simp [hlength]

/-- Decoding finds a form cut short where its first byte announces more bytes than there are. -/
theorem decode_eq_truncated_iff {lead : UInt8} {rest : Text} :
    decode lead rest = .error .truncated ↔
      ∃ length, Announces lead length ∧ (lead :: rest).length < length := by
  -- a byte that announces nothing or only itself is never cut short
  have hwhole : (∀ length, Announces lead length → length = 1) →
      ¬ ∃ length, Announces lead length ∧ (lead :: rest).length < length := by
    rintro hshort ⟨length, hannounced, hlength⟩
    rw [hshort length hannounced, List.length_cons] at hlength
    omega
  simp only [decode]
  split
  · refine iff_of_false (by simp) (hwhole fun length hannounced ↦ ?_)
    rw [announces_iff] at hannounced
    omega
  split
  · refine iff_of_false (by simp) (hwhole fun length hannounced ↦ ?_)
    rw [announces_iff] at hannounced
    omega
  split
  · exact form_eq_truncated_iff (announces_iff.mpr (by omega))
  split
  · exact form_eq_truncated_iff (announces_iff.mpr (by omega))
  split
  · exact form_eq_truncated_iff (announces_iff.mpr (by omega))
  · refine iff_of_false (by simp) (hwhole fun length hannounced ↦ ?_)
    rw [announces_iff] at hannounced
    omega

/-- A form whose announced bytes are all there is read without the bytes behind the text. -/
theorem exists_decode_of_announced {lead : UInt8} {rest after left : Text} {code : Nat}
    (hread : decode lead (rest ++ after) = .ok (code, left))
    (hwhole : decode lead rest ≠ .error .truncated) : ∃ read, decode lead rest = .ok read := by
  obtain ⟨form, hform, htext⟩ := decode_eq_ok_iff.mp hread
  have hprefix : form <+: lead :: rest := by
    obtain ⟨first, tail, rfl⟩ : ∃ first tail, form = first :: tail := by
      cases hform.isForm <;> exact ⟨_, _, rfl⟩
    obtain rfl : lead = first := (List.cons.inj htext).1
    have hlength : (lead :: tail).length ≤ (lead :: rest).length := by
      rw [Ne, decode_eq_truncated_iff] at hwhole
      exact Nat.not_lt.mp fun hlonger ↦ hwhole ⟨_, ⟨tail, code, hform.isForm, rfl⟩, hlonger⟩
    refine List.prefix_of_prefix_length_le ⟨left, htext.symm⟩ ?_ hlength
    exact (List.prefix_append (lead :: rest) after)
  obtain ⟨behind, hbehind⟩ := hprefix
  exact ⟨_, decode_eq_ok_iff.mpr ⟨form, hform, hbehind.symm⟩⟩

/-- Where nothing is cut short, no byte behind the text makes a difference. -/
theorem decode_append_eq_map {lead : UInt8} {rest : Text}
    (hwhole : decode lead rest ≠ .error .truncated) (after : Text) :
    decode lead (rest ++ after) = (decode lead rest).map fun read ↦ (read.1, read.2 ++ after) := by
  cases hread : decode lead rest with
  | ok read => exact decode_append after hread
  | error fault =>
    cases hlonger : decode lead (rest ++ after) with
    | ok read =>
      obtain ⟨other, hother⟩ := exists_decode_of_announced hlonger hwhole
      rw [hread] at hother
      cases hother
    | error other =>
      have hother : other ≠ .truncated := by
        rintro rfl
        obtain ⟨length, hannounced, hlength⟩ := decode_eq_truncated_iff.mp hlonger
        refine hwhole (decode_eq_truncated_iff.mpr ⟨length, hannounced, ?_⟩)
        simp only [List.length_cons, List.length_append] at hlength ⊢
        omega
      cases fault with
      | truncated => exact absurd hread hwhole
      | malformed =>
        cases other with
        | truncated => exact absurd rfl hother
        | malformed => rfl

/-! ### At a place of a text -/

section

variable {text rest : Text} {position : Nat} {lead : UInt8}
  (hdrop : text.drop position = lead :: rest)

include hdrop

/-- At a place of a text, decoding takes the bytes of a shortest form that stands there. -/
theorem decode_drop_eq_ok_iff {code : Nat} {after : Text} :
    decode lead rest = .ok (code, after) ↔ ∃ form, IsShortestForm form code ∧
      form <+: text.drop position ∧ after = text.drop (position + form.length) := by
  rw [decode_eq_ok_iff, ← hdrop]
  refine exists_congr fun form ↦ and_congr_right fun _ ↦ ?_
  rw [← List.drop_drop, List.prefix_iff_eq_append]
  constructor
  · intro htext
    rw [htext, List.drop_left]
    exact ⟨rfl, rfl⟩
  · rintro ⟨htext, rfl⟩
    exact htext.symm

/-- Decoding fails where no shortest form stands. -/
theorem exists_decode_drop_eq_error_iff : (∃ fault, decode lead rest = .error fault) ↔
    ∀ form code, IsShortestForm form code → ¬ form <+: text.drop position := by
  constructor
  · rintro ⟨fault, hfault⟩ form code hform hstarts
    have hread := (decode_drop_eq_ok_iff hdrop).mpr ⟨form, hform, hstarts, rfl⟩
    rw [hfault] at hread
    cases hread
  · intro hnone
    cases hresult : decode lead rest with
    | error fault => exact ⟨fault, rfl⟩
    | ok read =>
      obtain ⟨form, hform, hstarts, _⟩ := (decode_drop_eq_ok_iff hdrop).mp hresult
      exact absurd hstarts (hnone form _ hform)

/-- A form is cut short where the text ends before the announced length. -/
theorem decode_drop_eq_truncated_iff : decode lead rest = .error .truncated ↔
    ∃ length, Announces lead length ∧ text.length < position + length := by
  have hlength := congrArg List.length hdrop
  rw [List.length_drop, List.length_cons] at hlength
  rw [decode_eq_truncated_iff, List.length_cons]
  refine exists_congr fun length ↦ and_congr_right fun _ ↦ ?_
  omega

end

end Metrology.Utf8
