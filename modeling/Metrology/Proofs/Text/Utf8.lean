import Metrology.Proofs.Fallible
import Metrology.Text.Utf8

/-!
# Decoding of joined texts

Decoding reads from the left and looks no further than the form at hand, so that the code points of
a text come first among those of a longer one (`decodeAll_append`). It loses nothing: the code
points of a text encode to the text again (`encodeAll_of_decodeAll`).
-/

set_option autoImplicit false
set_option relaxedAutoImplicit false

namespace Metrology.Utf8

/-! ### What follows a form does not matter -/

theorem continuation?_append {count bits code : Nat} {text rest : Text} (after : Text)
    (hread : continuation? count bits text = some (code, rest)) :
    continuation? count bits (text ++ after) = some (code, rest ++ after) := by
  induction count generalizing bits text with
  | zero =>
    cases hread
    rfl
  | succ count ih =>
    cases text with
    | nil => cases hread
    | cons byte tail =>
      obtain ⟨six, hsix, hrest⟩ := Option.bind_eq_some_iff.mp hread
      exact Option.bind_eq_some_iff.mpr ⟨six, hsix, ih hrest⟩

theorem form_append {count least bits code : Nat} {text rest : Text} (after : Text)
    (hread : form count least bits text = .ok (code, rest)) :
    form count least bits (text ++ after) = .ok (code, rest ++ after) := by
  unfold form at hread
  split at hread
  · cases hread
  · next hlength =>
    split at hread
    · next value tail hcontinuation =>
      split at hread
      · cases hread
      · next hleast =>
        cases hread
        have hlonger : ¬ (text ++ after).length < count := by
          rw [List.length_append]
          omega
        rw [form, if_neg hlonger, continuation?_append after hcontinuation]
        exact if_neg hleast
    · cases hread

theorem decode_append {lead : UInt8} {code : Nat} {text rest : Text} (after : Text)
    (hread : decode lead text = .ok (code, rest)) :
    decode lead (text ++ after) = .ok (code, rest ++ after) := by
  simp only [decode] at hread ⊢
  split at hread
  · next hascii =>
    rw [if_pos hascii]
    cases hread
    rfl
  next hascii =>
  rw [if_neg hascii]
  split at hread
  · cases hread
  next hcontinuation =>
  rw [if_neg hcontinuation]
  split at hread
  · next htwo => rw [if_pos htwo, form_append after hread]
  next htwo =>
  rw [if_neg htwo]
  split at hread
  · next hthree => rw [if_pos hthree, form_append after hread]
  next hthree =>
  rw [if_neg hthree]
  split at hread
  · next hfour => rw [if_pos hfour, form_append after hread]
  · cases hread

theorem decodeAll_cons_of_decode {lead : UInt8} {code : Nat} {text rest : Text}
    (hread : decode lead text = .ok (code, rest)) :
    decodeAll (lead :: text) = (code :: (decodeAll rest).1, (decodeAll rest).2) := by
  rw [decodeAll]
  split
  · next hother =>
    rw [hread] at hother
    cases hother
    rfl
  · next hother =>
    rw [hread] at hother
    cases hother

theorem decodeAll_cons_of_fault {lead : UInt8} {text : Text} {fault : Fault}
    (hread : decode lead text = .error fault) : decodeAll (lead :: text) = ([], some fault) := by
  rw [decodeAll]
  split
  · next hother =>
    rw [hread] at hother
    cases hother
  · next hother =>
    rw [hread] at hother
    cases hother
    rfl

/-- The code points of a text come first among those of a longer one. -/
theorem decodeAll_append {text : Text} {codes : List Nat} (after : Text)
    (htext : decodeAll text = (codes, none)) :
    decodeAll (text ++ after) = (codes ++ (decodeAll after).1, (decodeAll after).2) := by
  induction text using decodeAll.induct generalizing codes with
  | case1 =>
    rw [decodeAll] at htext
    cases htext
    rfl
  | case2 lead text code rest hread others fault hothers ih =>
    rw [decodeAll_cons_of_decode hread, Prod.mk.injEq] at htext
    obtain ⟨rfl, hnone⟩ := htext
    rw [List.cons_append, decodeAll_cons_of_decode (decode_append after hread),
      ih (Prod.ext rfl hnone), List.cons_append]
  | case3 lead text fault hread =>
    rw [decodeAll_cons_of_fault hread] at htext
    cases htext

theorem decodeAll_cons_ascii {byte : UInt8} (hascii : byte.toNat < 0x80) (rest : Text) :
    decodeAll (byte :: rest) = (byte.toNat :: (decodeAll rest).1, (decodeAll rest).2) :=
  decodeAll_cons_of_decode (by rw [decode, if_pos hascii])

/-- A text that starts with an ASCII character starts with its code point. -/
theorem head_decodeAll {text : Text} {codes : List Nat} {property : Nat → Prop}
    (htext : decodeAll text = (codes, none))
    (hhead : ∀ byte ∈ text.head?, byte.toNat < 0x80 ∧ property byte.toNat) :
    ∀ code ∈ codes.head?, property code := by
  cases text with
  | nil =>
    rw [decodeAll] at htext
    cases htext
    simp
  | cons byte rest =>
    obtain ⟨hascii, hproperty⟩ := hhead byte rfl
    rw [decodeAll_cons_ascii hascii, Prod.mk.injEq] at htext
    obtain ⟨rfl, _⟩ := htext
    intro code hcode
    rwa [← Option.some.inj hcode]

/-! ### Decoding loses nothing -/

theorem payload?_eq_some_iff {byte : UInt8} {six : Nat} :
    payload? byte = some six ↔ byte.toNat = 0x80 + six ∧ six < 0x40 := by
  unfold payload?
  split
  · rw [Option.some.injEq]
    omega
  · simp only [reduceCtorEq, false_iff]
    omega

theorem toUInt8_eq_of_toNat_eq {byte : UInt8} {number : Nat} (hbyte : byte.toNat = number) :
    number.toUInt8 = byte := by
  rw [← hbyte]
  exact UInt8.ofNat_toNat

theorem continuation?_of_form {count least bits code : Nat} {text rest : Text}
    (hread : form count least bits text = .ok (code, rest)) :
    continuation? count bits text = some (code, rest) ∧ least ≤ code := by
  unfold form at hread
  split at hread
  · cases hread
  · split at hread
    · next hcontinuation =>
      split at hread
      · cases hread
      · next hleast =>
        cases hread
        exact ⟨hcontinuation, Nat.not_lt.mp hleast⟩
    · cases hread

/-- A continuation byte holds six bits. -/
theorem exists_byte_of_continuation? {count bits code : Nat} {text rest : Text}
    (hread : continuation? (count + 1) bits text = some (code, rest)) :
    ∃ byte six tail, text = byte :: tail ∧ (0x80 + six).toUInt8 = byte ∧ six < 0x40 ∧
      continuation? count (bits * 0x40 + six) tail = some (code, rest) := by
  cases text with
  | nil => cases hread
  | cons byte tail =>
    obtain ⟨six, hsix, hrest⟩ := Option.bind_eq_some_iff.mp hread
    obtain ⟨hbyte, hlt⟩ := payload?_eq_some_iff.mp hsix
    exact ⟨byte, six, tail, rfl, toUInt8_eq_of_toNat_eq hbyte, hlt, hrest⟩

/-- The bytes that were read are those of the code point. -/
theorem encode_of_decode {lead : UInt8} {code : Nat} {text rest : Text}
    (hread : decode lead text = .ok (code, rest)) : encode code ++ rest = lead :: text := by
  simp only [decode] at hread
  split at hread
  · next hascii =>
    cases hread
    rw [encode, if_pos hascii, toUInt8_eq_of_toNat_eq rfl, List.singleton_append]
  split at hread
  · cases hread
  split at hread
  · obtain ⟨hread, hleast⟩ := continuation?_of_form hread
    obtain ⟨_, first, _, rfl, rfl, hfirst, hread⟩ := exists_byte_of_continuation? hread
    obtain ⟨high, hhigh⟩ : ∃ high, lead.toNat = 0xC0 + high := ⟨lead.toNat - 0xC0, by omega⟩
    rw [hhigh, Nat.add_sub_cancel_left] at hread
    cases hread
    have hlead : (high * 0x40 + first) / 0x40 = high := by omega
    have hsecond : (high * 0x40 + first) % 0x40 = first := by omega
    rw [encode, if_neg (by omega), if_pos (by omega), hlead, hsecond,
      toUInt8_eq_of_toNat_eq hhigh]
    rfl
  split at hread
  · obtain ⟨hread, hleast⟩ := continuation?_of_form hread
    obtain ⟨_, first, _, rfl, rfl, hfirst, hread⟩ := exists_byte_of_continuation? hread
    obtain ⟨_, second, _, rfl, rfl, hsecond, hread⟩ := exists_byte_of_continuation? hread
    obtain ⟨high, hhigh⟩ : ∃ high, lead.toNat = 0xE0 + high := ⟨lead.toNat - 0xE0, by omega⟩
    rw [hhigh, Nat.add_sub_cancel_left] at hread
    cases hread
    have hlead : ((high * 0x40 + first) * 0x40 + second) / 0x1000 = high := by omega
    have hmiddle : ((high * 0x40 + first) * 0x40 + second) / 0x40 % 0x40 = first := by omega
    have hlast : ((high * 0x40 + first) * 0x40 + second) % 0x40 = second := by omega
    rw [encode, if_neg (by omega), if_neg (by omega), if_pos (by omega), hlead, hmiddle, hlast,
      toUInt8_eq_of_toNat_eq hhigh]
    rfl
  split at hread
  · obtain ⟨hread, hleast⟩ := continuation?_of_form hread
    obtain ⟨_, first, _, rfl, rfl, hfirst, hread⟩ := exists_byte_of_continuation? hread
    obtain ⟨_, second, _, rfl, rfl, hsecond, hread⟩ := exists_byte_of_continuation? hread
    obtain ⟨_, third, _, rfl, rfl, hthird, hread⟩ := exists_byte_of_continuation? hread
    obtain ⟨high, hhigh⟩ : ∃ high, lead.toNat = 0xF0 + high := ⟨lead.toNat - 0xF0, by omega⟩
    rw [hhigh, Nat.add_sub_cancel_left] at hread
    cases hread
    generalize hcode : ((high * 0x40 + first) * 0x40 + second) * 0x40 + third = code at hleast
    have hlead : code / 0x40000 = high := by omega
    have hmiddle : code / 0x1000 % 0x40 = first := by omega
    have hnext : code / 0x40 % 0x40 = second := by omega
    have hlast : code % 0x40 = third := by omega
    rw [encode, if_neg (by omega), if_neg (by omega), if_neg (by omega), hlead, hmiddle, hnext,
      hlast, toUInt8_eq_of_toNat_eq hhigh]
    rfl
  · cases hread

/-- The code points of a text encode to the text. -/
theorem encodeAll_of_decodeAll {text : Text} {codes : List Nat}
    (htext : decodeAll text = (codes, none)) : encodeAll codes = text := by
  induction text using decodeAll.induct generalizing codes with
  | case1 =>
    rw [decodeAll] at htext
    cases htext
    rfl
  | case2 lead text code rest hread others fault hothers ih =>
    rw [decodeAll_cons_of_decode hread, Prod.mk.injEq] at htext
    obtain ⟨rfl, hnone⟩ := htext
    rw [encodeAll, List.flatMap_cons, ← encodeAll, ih (Prod.ext rfl hnone), encode_of_decode hread]
  | case3 lead text fault hread =>
    rw [decodeAll_cons_of_fault hread] at htext
    cases htext

/-- A text starts with the code points that are read from it. -/
theorem encodeAll_prefix_of_decodeAll {text : Text} {codes : List Nat} {ending : Option Fault}
    (htext : decodeAll text = (codes, ending)) : encodeAll codes <+: text := by
  induction text using decodeAll.induct generalizing codes ending with
  | case1 =>
    rw [decodeAll] at htext
    cases htext
    exact List.nil_prefix
  | case2 lead text code rest hread others fault hothers ih =>
    rw [decodeAll_cons_of_decode hread, Prod.mk.injEq] at htext
    obtain ⟨rfl, rfl⟩ := htext
    rw [encodeAll, List.flatMap_cons, ← encodeAll, ← encode_of_decode hread]
    exact (List.prefix_append_right_inj _).mpr (ih rfl)
  | case3 lead text fault hread =>
    rw [decodeAll_cons_of_fault hread] at htext
    cases htext
    exact List.nil_prefix

/-! ### Encoding loses nothing -/

theorem lt_of_continuation? {count bits code : Nat} {text rest : Text}
    (hread : continuation? count bits text = some (code, rest)) :
    code < (bits + 1) * Nat.pow 0x40 count := by
  induction count generalizing bits text with
  | zero =>
    cases hread
    simp
  | succ count ih =>
    obtain ⟨_, six, tail, _, _, hsix, hrest⟩ := exists_byte_of_continuation? hread
    have hlt := ih hrest
    have hpow : Nat.pow 0x40 (count + 1) = 0x40 * Nat.pow 0x40 count := Nat.pow_succ'
    rw [hpow, ← Nat.mul_assoc]
    exact Nat.lt_of_lt_of_le hlt (Nat.mul_le_mul_right _ (by omega))

/-- Four bytes hold code points below `0x200000`. -/
theorem lt_of_decode {lead : UInt8} {code : Nat} {text rest : Text}
    (hread : decode lead text = .ok (code, rest)) : code < 0x200000 := by
  simp only [decode] at hread
  split at hread
  · cases hread
    omega
  split at hread
  · cases hread
  split at hread
  · have hlt := lt_of_continuation? (continuation?_of_form hread).1
    have hpow : Nat.pow 0x40 1 = 0x40 := rfl
    rw [hpow] at hlt
    omega
  split at hread
  · have hlt := lt_of_continuation? (continuation?_of_form hread).1
    have hpow : Nat.pow 0x40 2 = 0x1000 := rfl
    rw [hpow] at hlt
    omega
  split at hread
  · have hlt := lt_of_continuation? (continuation?_of_form hread).1
    have hpow : Nat.pow 0x40 3 = 0x40000 := rfl
    rw [hpow] at hlt
    omega
  · cases hread

theorem lt_of_decodeAll {text : Text} {codes : List Nat} {ending : Option Fault}
    (htext : decodeAll text = (codes, ending)) : ∀ code ∈ codes, code < 0x200000 := by
  induction text using decodeAll.induct generalizing codes ending with
  | case1 =>
    rw [decodeAll] at htext
    cases htext
    simp
  | case2 lead text code rest hread others fault hothers ih =>
    rw [decodeAll_cons_of_decode hread, Prod.mk.injEq] at htext
    obtain ⟨rfl, rfl⟩ := htext
    intro other hother
    rcases List.mem_cons.mp hother with rfl | hmem
    · exact lt_of_decode hread
    · exact ih rfl other hmem
  | case3 lead text fault hread =>
    rw [decodeAll_cons_of_fault hread] at htext
    cases htext
    simp

theorem toNat_toUInt8 {number : Nat} (hbyte : number < 0x100) : number.toUInt8.toNat = number :=
  Nat.mod_eq_of_lt hbyte

theorem continuation?_cons {count bits six : Nat} (hsix : six < 0x40) (rest : Text) :
    continuation? (count + 1) bits ((0x80 + six).toUInt8 :: rest) =
      continuation? count (bits * 0x40 + six) rest := by
  rw [continuation?, payload?_eq_some_iff.mpr ⟨toNat_toUInt8 (by omega), hsix⟩, Option.bind_some]

theorem form_eq_ok {count least bits code : Nat} {text rest : Text}
    (hread : continuation? count bits text = some (code, rest)) (hleast : least ≤ code) :
    form count least bits text = .ok (code, rest) := by
  have hlength := length_of_continuation? hread
  rw [form, if_neg (by omega), hread]
  exact if_neg (Nat.not_lt.mpr hleast)

/-- The form of a code point is read as the code point, whatever follows. -/
theorem exists_decode_encode {code : Nat} (hcode : code < 0x200000) (after : Text) :
    ∃ lead rest, encode code ++ after = lead :: rest ∧ decode lead rest = .ok (code, after) := by
  unfold encode
  split
  · next hone =>
    refine ⟨_, after, rfl, ?_⟩
    have hlead := toNat_toUInt8 (show code < 0x100 by omega)
    rw [decode, hlead, if_pos hone]
  split
  · refine ⟨_, _, List.cons_append, ?_⟩
    have hlead := toNat_toUInt8 (show 0xC0 + code / 0x40 < 0x100 by omega)
    simp only [decode, hlead]
    rw [if_neg (by omega), if_neg (by omega), if_pos (by omega)]
    refine form_eq_ok ?_ (by omega)
    rw [List.cons_append, continuation?_cons (by omega), continuation?, List.nil_append,
      show (0xC0 + code / 0x40 - 0xC0) * 0x40 + code % 0x40 = code by omega]
  split
  · refine ⟨_, _, List.cons_append, ?_⟩
    have hlead := toNat_toUInt8 (show 0xE0 + code / 0x1000 < 0x100 by omega)
    simp only [decode, hlead]
    rw [if_neg (by omega), if_neg (by omega), if_neg (by omega), if_pos (by omega)]
    refine form_eq_ok ?_ (by omega)
    rw [List.cons_append, List.cons_append, continuation?_cons (by omega),
      continuation?_cons (by omega), continuation?, List.nil_append,
      show ((0xE0 + code / 0x1000 - 0xE0) * 0x40 + code / 0x40 % 0x40) * 0x40 + code % 0x40 =
        code by omega]
  · refine ⟨_, _, List.cons_append, ?_⟩
    have hlead := toNat_toUInt8 (show 0xF0 + code / 0x40000 < 0x100 by omega)
    simp only [decode, hlead]
    rw [if_neg (by omega), if_neg (by omega), if_neg (by omega), if_neg (by omega),
      if_pos (by omega)]
    refine form_eq_ok ?_ (by omega)
    rw [List.cons_append, List.cons_append, List.cons_append, continuation?_cons (by omega),
      continuation?_cons (by omega), continuation?_cons (by omega), continuation?, List.nil_append,
      show (((0xF0 + code / 0x40000 - 0xF0) * 0x40 + code / 0x1000 % 0x40) * 0x40 +
        code / 0x40 % 0x40) * 0x40 + code % 0x40 = code by omega]

/-- Encoded code points are read as these. -/
theorem decodeAll_encodeAll {codes : List Nat} (hcodes : ∀ code ∈ codes, code < 0x200000) :
    decodeAll (encodeAll codes) = (codes, none) := by
  induction codes with
  | nil =>
    show decodeAll [] = _
    rw [decodeAll]
  | cons code rest ih =>
    obtain ⟨lead, tail, hencode, hdecode⟩ :=
      exists_decode_encode (hcodes code (by simp)) (encodeAll rest)
    have hrest := ih fun other hother ↦ hcodes other (List.mem_cons_of_mem code hother)
    show decodeAll (encode code ++ encodeAll rest) = _
    rw [hencode, decodeAll_cons_of_decode hdecode, hrest]

theorem decodeAll_encode_append {code : Nat} (hcode : code < 0x200000) (text : Text) :
    decodeAll (encode code ++ text) = (code :: (decodeAll text).1, (decodeAll text).2) := by
  obtain ⟨lead, rest, hencode, hdecode⟩ := exists_decode_encode hcode text
  rw [hencode, decodeAll_cons_of_decode hdecode]

/-- The form of a code point starts with a byte that continues no other form. -/
theorem exists_lead_encode {code : Nat} (hcode : code < 0x200000) :
    ∃ lead rest, encode code = lead :: rest ∧ payload? lead = none := by
  have hlead : ∀ {number : Nat}, number < 0x100 → number < 0x80 ∨ 0xC0 ≤ number →
      payload? number.toUInt8 = none := by
    intro number hbyte hother
    rw [payload?, toNat_toUInt8 hbyte, if_neg (by omega)]
  unfold encode
  split
  · exact ⟨_, _, rfl, hlead (by omega) (by omega)⟩
  split
  · exact ⟨_, _, rfl, hlead (by omega) (by omega)⟩
  split
  · exact ⟨_, _, rfl, hlead (by omega) (by omega)⟩
  · exact ⟨_, _, rfl, hlead (by omega) (by omega)⟩

/-! ### Texts that are joined at a first byte -/

section

variable {lead : UInt8} (hlead : payload? lead = none) {after : Text}

include hlead

theorem exists_continuation?_of_append {count bits code : Nat} {text rest : Text}
    (hread : continuation? count bits (text ++ lead :: after) = some (code, rest)) :
    ∃ left, rest = left ++ lead :: after ∧ continuation? count bits text = some (code, left) := by
  induction count generalizing bits text with
  | zero =>
    cases hread
    exact ⟨text, rfl, rfl⟩
  | succ count ih =>
    cases text with
    | nil =>
      rw [List.nil_append, continuation?, hlead] at hread
      cases hread
    | cons byte text =>
      obtain ⟨six, hsix, hrest⟩ := Option.bind_eq_some_iff.mp hread
      obtain ⟨left, rfl, hleft⟩ := ih hrest
      exact ⟨left, rfl, Option.bind_eq_some_iff.mpr ⟨six, hsix, hleft⟩⟩

theorem exists_form_of_append {count least bits code : Nat} {text rest : Text}
    (hread : form count least bits (text ++ lead :: after) = .ok (code, rest)) :
    ∃ left, rest = left ++ lead :: after ∧ form count least bits text = .ok (code, left) := by
  obtain ⟨hcontinuation, hleast⟩ := continuation?_of_form hread
  obtain ⟨left, rfl, hleft⟩ := exists_continuation?_of_append hlead hcontinuation
  exact ⟨left, rfl, form_eq_ok hleft hleast⟩

/-- No form goes on across a byte that continues none. -/
theorem exists_decode_of_append {first : UInt8} {code : Nat} {text rest : Text}
    (hread : decode first (text ++ lead :: after) = .ok (code, rest)) :
    ∃ left, rest = left ++ lead :: after ∧ decode first text = .ok (code, left) := by
  simp only [decode] at hread ⊢
  split at hread
  · next hascii =>
    cases hread
    exact ⟨text, rfl, if_pos hascii⟩
  next hascii =>
  rw [if_neg hascii]
  split at hread
  · cases hread
  next hcontinuation =>
  rw [if_neg hcontinuation]
  split at hread
  · next htwo =>
    rw [if_pos htwo]
    exact exists_form_of_append hlead hread
  next htwo =>
  rw [if_neg htwo]
  split at hread
  · next hthree =>
    rw [if_pos hthree]
    exact exists_form_of_append hlead hread
  next hthree =>
  rw [if_neg hthree]
  split at hread
  · next hfour =>
    rw [if_pos hfour]
    exact exists_form_of_append hlead hread
  · cases hread

/-- A text without fault is without fault before and behind a byte that continues no form. -/
theorem exists_decodeAll_of_append {first : Text} {codes : List Nat}
    (hread : decodeAll (first ++ lead :: after) = (codes, none)) :
    ∃ before behind, decodeAll first = (before, none) ∧
      decodeAll (lead :: after) = (behind, none) ∧ codes = before ++ behind := by
  induction first using decodeAll.induct generalizing codes with
  | case1 => exact ⟨[], codes, by rw [decodeAll], hread, rfl⟩
  | case2 byte text code rest hdecode others fault hothers ih =>
    rw [List.cons_append, decodeAll_cons_of_decode (decode_append _ hdecode), Prod.mk.injEq]
      at hread
    obtain ⟨rfl, hnone⟩ := hread
    obtain ⟨before, behind, hbefore, hbehind, hcodes⟩ := ih (Prod.ext rfl hnone)
    refine ⟨code :: before, behind, ?_, hbehind, congrArg (code :: ·) hcodes⟩
    rw [decodeAll_cons_of_decode hdecode, hbefore]
  | case3 byte text fault hfault =>
    cases hwhole : decode byte (text ++ lead :: after) with
    | error other =>
      rw [List.cons_append, decodeAll_cons_of_fault hwhole] at hread
      cases hread
    | ok read =>
      obtain ⟨code, rest⟩ := read
      obtain ⟨left, _, hleft⟩ := exists_decode_of_append hlead hwhole
      rw [hfault] at hleft
      cases hleft

end

/-! ### Encoded lists and their sizes -/

theorem encodeAll_cons (code : Nat) (rest : List Nat) :
    encodeAll (code :: rest) = encode code ++ encodeAll rest :=
  List.flatMap_cons

theorem encodeAll_append (first second : List Nat) :
    encodeAll (first ++ second) = encodeAll first ++ encodeAll second :=
  List.flatMap_append

theorem sizeAll_append (first second : List Nat) :
    sizeAll (first ++ second) = sizeAll first + sizeAll second := by
  simp only [sizeAll, encodeAll_append, List.length_append]

theorem sizeAll_cons (code : Nat) (rest : List Nat) :
    sizeAll (code :: rest) = size code + sizeAll rest := by
  simp only [sizeAll, size, encodeAll_cons, List.length_append]

/-- Every code point takes a byte at least. -/
theorem size_pos (code : Nat) : 0 < size code := by
  simp only [size, encode]
  split
  · simp
  split
  · simp
  split <;> simp

theorem encode_ne_nil (code : Nat) : encode code ≠ [] :=
  List.length_pos_iff.mp (size_pos code)

theorem encodeAll_ne_nil {codes : List Nat} (hcodes : codes ≠ []) : encodeAll codes ≠ [] := by
  obtain ⟨first, rest, rfl⟩ := List.exists_cons_of_ne_nil hcodes
  rw [encodeAll_cons]
  exact List.append_ne_nil_of_left_ne_nil (encode_ne_nil first) _

/-! ### The start and the end of what is read -/

/-- An ASCII character comes first in a text when it comes first in its code points. -/
theorem head?_eq_iff {text : Text} {codes : List Nat} {ending : Option Fault}
    (hdecode : decodeAll text = (codes, ending)) {byte : UInt8} (hascii : byte.toNat < 0x80) :
    text.head? = some byte ↔ codes.head? = some byte.toNat := by
  constructor
  · intro hhead
    obtain ⟨rest, rfl⟩ := List.head?_eq_some_iff.mp hhead
    rw [decodeAll_cons_ascii hascii, Prod.mk.injEq] at hdecode
    rw [← hdecode.1, List.head?_cons]
  · intro hhead
    obtain ⟨others, rfl⟩ := List.head?_eq_some_iff.mp hhead
    obtain ⟨rest, rfl⟩ := encodeAll_prefix_of_decodeAll hdecode
    rw [encodeAll_cons, encode, if_pos hascii, toUInt8_eq_of_toNat_eq rfl]
    rfl

/-- What stopped decoding stands behind the code points that were read. -/
theorem exists_decode_of_fault {text : Text} {codes : List Nat} {fault : Fault}
    (htext : decodeAll text = (codes, some fault)) :
    ∃ lead rest, text = encodeAll codes ++ lead :: rest ∧ decode lead rest = .error fault := by
  induction text using decodeAll.induct generalizing codes with
  | case1 =>
    rw [decodeAll] at htext
    cases htext
  | case2 lead text code after hread others ending hothers ih =>
    rw [decodeAll_cons_of_decode hread, Prod.mk.injEq] at htext
    obtain ⟨rfl, hfault⟩ := htext
    obtain ⟨next, rest, hafter, hdecode⟩ := ih (Prod.ext rfl hfault)
    refine ⟨next, rest, ?_, hdecode⟩
    rw [encodeAll_cons, List.append_assoc, ← hafter, encode_of_decode hread]
  | case3 lead text other hread =>
    rw [decodeAll_cons_of_fault hread] at htext
    cases htext
    exact ⟨lead, text, rfl, hread⟩

end Metrology.Utf8
