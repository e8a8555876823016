import Metrology.Proofs.Expression.Numbers
import Metrology.Proofs.Expression.Separators

/-!
# The encoding of a text that has tokens

A text with tokens consists of the shortest forms of code points below `0x200000`. These are the
characters of Unicode and besides them the surrogates and all code points above `0x10FFFF`, which
have no form in UTF-8 proper. Characters of numbers, operators, exponents and blanks are characters
of Unicode, so that only a symbol can be ill-formed: a text is well-formed when its symbols are
(`Token.encoding_of_ofText`).
-/

set_option autoImplicit false
set_option relaxedAutoImplicit false

namespace Metrology

/-! ### Well-formed texts -/

namespace Utf8

/-- The text is that of characters of Unicode, in their shortest forms. -/
def IsWellFormed (text : Text) : Prop :=
  text.toByteArray.IsValidUTF8

theorem lt_of_isValidChar {code : Nat} (hvalid : code.isValidChar) : code < 0x200000 := by
  rw [Nat.isValidChar] at hvalid
  omega

/-- Characters of Unicode have the forms that UTF-8 gives to them. -/
theorem encode_toNat (character : Char) :
    encode character.toNat = String.utf8EncodeChar character := by
  have hvalid : character.toNat.isValidChar := character.valid
  rw [Nat.isValidChar] at hvalid
  have hcode : character.val.toNat = character.toNat := rfl
  simp only [encode, String.utf8EncodeChar, hcode]
  generalize character.toNat = code at hvalid
  split
  · rw [if_pos (by omega)]
  split
  · rw [if_neg (by omega), if_pos (by omega),
      show 0xC0 + code / 0x40 = code / 64 % 32 + 192 by omega, Nat.add_comm 0x80]
  split
  · rw [if_neg (by omega), if_neg (by omega), if_pos (by omega),
      show 0xE0 + code / 0x1000 = code / 4096 % 16 + 224 by omega, Nat.add_comm 0x80,
      Nat.add_comm 0x80]
  · rw [if_neg (by omega), if_neg (by omega), if_neg (by omega),
      show 0xF0 + code / 0x40000 = code / 262144 % 8 + 240 by omega, Nat.add_comm 0x80,
      Nat.add_comm 0x80, Nat.add_comm 0x80]

theorem encodeAll_map_toNat (characters : List Char) :
    (encodeAll (characters.map Char.toNat)).toByteArray = characters.utf8Encode := by
  rw [encodeAll, List.flatMap_map, List.utf8Encode]
  simp only [encode_toNat]

/-- Code points that four bytes can hold make up a well-formed text when they are characters. -/
theorem isWellFormed_encodeAll_iff {codes : List Nat} (hcodes : ∀ code ∈ codes, code < 0x200000) :
    IsWellFormed (encodeAll codes) ↔ ∀ code ∈ codes, code.isValidChar := by
  constructor
  · rintro ⟨characters, hcharacters⟩
    rw [← encodeAll_map_toNat] at hcharacters
    have htext : encodeAll codes = encodeAll (characters.map Char.toNat) := by
      simpa using congrArg ByteArray.data hcharacters
    have hvalid : ∀ code ∈ characters.map Char.toNat, code.isValidChar := by
      intro code hcode
      obtain ⟨character, _, rfl⟩ := List.mem_map.mp hcode
      exact character.valid
    -- a text is the form of one list of code points only
    have hread := decodeAll_encodeAll hcodes
    rw [htext, decodeAll_encodeAll fun code hcode ↦ lt_of_isValidChar (hvalid code hcode),
      Prod.mk.injEq] at hread
    exact hread.1 ▸ hvalid
  · intro hvalid
    have hcharacters : codes = (codes.map Char.ofNat).map Char.toNat := by
      rw [List.map_map, List.map_congr_left (g := id), List.map_id]
      intro code hcode
      show (Char.ofNat code).toNat = code
      rw [Char.ofNat, dif_pos (hvalid code hcode)]
      rfl
    rw [hcharacters, IsWellFormed, encodeAll_map_toNat]
    exact ByteArray.isValidUTF8_utf8Encode

end Utf8

/-! ### Tokens of characters -/

namespace Lexer

theorem isValidChar_of_separates {code : Nat} (hcode : separates code = true) :
    code.isValidChar :=
  (by decide : ∀ other ∈ separators, other.isValidChar) code (mem_separators hcode)

theorem isValidChar_of_number {codes : List Nat} {read : Lexeme}
    (hread : number codes = .ok read) : ∀ code ∈ read.codes, code.isValidChar := by
  obtain ⟨numeral, _, hscan, _, rfl⟩ := exists_numeral_of_number hread
  intro code hcode
  have hascii := ((Numeral.isWritten_of_scan hscan).smallLetter_not_mem hcode).1
  exact .inl (Nat.lt_trans hascii (by decide))

theorem isValidChar_of_superscript {ending : Option Utf8.Fault} {codes : List Nat} {read : Lexeme}
    (hread : superscript ending codes = .ok read) : ∀ code ∈ read.codes, code.isValidChar :=
  fun code hcode ↦ (by decide : ∀ other ∈ raisedCodes, other.isValidChar) code
    (mem_raisedCodes (isRaised_of_superscript hread code hcode))

/-- Tokens that are no symbols consist of characters of Unicode. -/
theorem isValidChar_of_lexeme {ending : Option Utf8.Fault} {first : Nat} {rest : List Nat}
    {read : Lexeme} (hread : lexeme ending first rest = .ok read) (hkind : read.kind ≠ .symbol) :
    ∀ code ∈ read.codes, code.isValidChar := by
  have hoperator : ∀ {kind}, operatorKind? first = some kind →
      ∀ code ∈ [first], code.isValidChar := by
    intro kind hfirst code hcode
    rw [List.mem_singleton.mp hcode]
    exact isValidChar_of_separates (separates_of_operatorKind? hfirst)
  rcases lexeme_cases hread with ⟨htimes, rfl⟩ | ⟨rfl, rfl⟩ | ⟨rfl, rfl⟩ | ⟨_, hnumber⟩ |
    ⟨_, hsuperscript⟩ | ⟨_, rfl⟩
  · exact hoperator (if_pos htimes)
  · exact hoperator rfl
  · exact hoperator rfl
  · exact isValidChar_of_number hnumber
  · exact isValidChar_of_superscript hsuperscript
  · exact absurd rfl hkind

namespace Reads

/-- Code points are characters of Unicode when those of the symbols are. -/
theorem isValidChar_iff {position : Nat} {spaced : Bool} {codes : List Nat} {tokens : List Token}
    (hreads : Reads position spaced codes tokens) (hcodes : ∀ code ∈ codes, code < 0x200000) :
    (∀ code ∈ codes, code.isValidChar) ↔
      ∀ token ∈ tokens, token.kind = .symbol → Utf8.IsWellFormed token.text := by
  induction hreads with
  | finish => simp
  | @blank _ first _ rest _ hblank _ ih =>
    rw [List.forall_mem_cons, ih fun code hcode ↦ hcodes code (List.mem_cons_of_mem first hcode)]
    exact and_iff_right (isValidChar_of_separates (separates_of_isBlank hblank))
  | @lexeme _ first _ rest read _ _ hread _ ih =>
    rw [← (lexeme_codes hread).1] at hcodes ⊢
    rw [List.forall_mem_append] at hcodes ⊢
    rw [List.forall_mem_cons, ih hcodes.2]
    refine and_congr_left fun _ ↦ ?_
    rw [Utf8.isWellFormed_encodeAll_iff hcodes.1]
    by_cases hkind : read.kind = .symbol
    · exact ⟨fun hvalid _ ↦ hvalid, fun hvalid ↦ hvalid hkind⟩
    · exact iff_of_true (isValidChar_of_lexeme hread hkind) (absurd · hkind)

end Reads

end Lexer

namespace Token

/-- For all texts that have tokens. The text consists of the shortest forms of code points below
`0x200000`. It is well-formed UTF-8 exactly when none of these is a surrogate or lies above
`0x10FFFF`, and also exactly when each of its symbols is well-formed. -/
theorem encoding_of_ofText {text : Text} {tokens : List Token} (hread : ofText text = .ok tokens) :
    ∃ codes, Utf8.decodeAll text = (codes, none) ∧ text = Utf8.encodeAll codes ∧
      (∀ code ∈ codes, code < 0x200000) ∧
      (Utf8.IsWellFormed text ↔ ∀ code ∈ codes, ¬ (0xD800 ≤ code ∧ code ≤ 0xDFFF) ∧
        code ≤ 0x10FFFF) ∧
      (Utf8.IsWellFormed text ↔
        ∀ token ∈ tokens, token.kind = .symbol → Utf8.IsWellFormed token.text) := by
  obtain ⟨codes, hdecode, hreads⟩ := ofText_eq_ok_iff.mp hread
  have hcodes := Utf8.lt_of_decodeAll hdecode
  have htext := (Utf8.encodeAll_of_decodeAll hdecode).symm
  have hvalid := htext ▸ Utf8.isWellFormed_encodeAll_iff hcodes
  refine ⟨codes, hdecode, htext, hcodes, hvalid.trans ?_,
    hvalid.trans (hreads.isValidChar_iff hcodes)⟩
  refine forall_congr' fun code ↦ imp_congr_right fun _ ↦ ?_
  rw [Nat.isValidChar]
  omega

theorem encoding_of_ofText_ohm :
    ofText (utf8 "Ω") = .ok [⟨.symbol, utf8 "Ω", 0, false⟩, ⟨.finish, [], 2, false⟩] ∧
      Utf8.decodeAll (utf8 "Ω") = ([0x3A9], none) ∧ Utf8.IsWellFormed (utf8 "Ω") := by
  have hcodes : Utf8.decodeAll (utf8 "Ω") = ([0x3A9], none) :=
    @Utf8.decodeAll_encodeAll [0x3A9] (by decide)
  have hread : ofText (utf8 "Ω") =
      .ok [⟨.symbol, utf8 "Ω", 0, false⟩, ⟨.finish, [], 2, false⟩] := by
    rw [ofText, hcodes]
    exact Fallible.mapError_eq_ok_iff.mpr (by cbv)
  obtain ⟨codes, hdecode, _, _, hwellFormed, _⟩ := encoding_of_ofText hread
  obtain rfl := (Prod.mk.inj (hcodes.symm.trans hdecode)).1
  exact ⟨hread, hcodes, hwellFormed.mpr (by decide)⟩

/-- A surrogate is read as a symbol. -/
theorem ofText_surrogate :
    ofText [0xED, 0xA0, 0x80] =
        .ok [⟨.symbol, [0xED, 0xA0, 0x80], 0, false⟩, ⟨.finish, [], 3, false⟩] ∧
      ¬ Utf8.IsWellFormed [0xED, 0xA0, 0x80] := by
  have hcodes : Utf8.decodeAll [0xED, 0xA0, 0x80] = ([0xD800], none) :=
    @Utf8.decodeAll_encodeAll [0xD800] (by decide)
  refine ⟨?_, fun hwellFormed ↦ ?_⟩
  · rw [ofText, hcodes]
    exact Fallible.mapError_eq_ok_iff.mpr (by cbv)
  · have hvalid := (@Utf8.isWellFormed_encodeAll_iff [0xD800] (by decide)).mp hwellFormed 0xD800
      List.mem_cons_self
    exact absurd hvalid (by decide)

end Token

end Metrology
