import Metrology.Proofs.Expression.Lexing
import Metrology.Proofs.Text.Forms

/-!
# Where decoding stops

The lexer reads code points up to the first that cannot be decoded. When the text before that place
has tokens, the whole text is refused there, for the fault of decoding (`Token.ofText_of_fault`);
and a text is refused for a fault of decoding at no other place (`Token.decode_of_ofText`). With
what `Metrology.Utf8` accepts, this is all that decoding does at a place of a text
(`Utf8.decode_spec`).
-/

set_option autoImplicit false
set_option relaxedAutoImplicit false

namespace Metrology

open Fallible

namespace Lexer

/-! ### What ends the code points matters for refusals only -/

theorem superscript_of_ok {ending : Option Utf8.Fault} {codes : List Nat} {read : Lexeme}
    (hread : superscript ending codes = .ok read) (other : Option Utf8.Fault) :
    superscript other codes = .ok read := by
  simp only [superscript] at hread ⊢
  split at hread
  · cases hread
  · next hlimit =>
    rw [if_neg hlimit]
    split at hread
    · split at hread <;> cases hread
    · next hdigits => rwa [if_neg hdigits]

theorem lexeme_of_ok {ending : Option Utf8.Fault} {first : Nat} {rest : List Nat} {read : Lexeme}
    (hread : lexeme ending first rest = .ok read) (other : Option Utf8.Fault) :
    lexeme other first rest = .ok read := by
  unfold lexeme at hread ⊢
  split at hread
  · next htimes => rwa [if_pos htimes]
  next htimes =>
  rw [if_neg htimes]
  split at hread
  · next hdivide => rwa [if_pos hdivide]
  next hdivide =>
  rw [if_neg hdivide]
  split at hread
  · next hcaret => rwa [if_pos hcaret]
  next hcaret =>
  rw [if_neg hcaret]
  split at hread
  · next hnumber => rwa [if_pos hnumber]
  next hnumber =>
  rw [if_neg hnumber]
  split at hread
  · next hsuperscript =>
    rw [if_pos hsuperscript]
    exact superscript_of_ok hread other
  · next hsuperscript => rwa [if_neg hsuperscript]

/-- Code points with tokens are refused only where a fault ends them. -/
theorem Reads.tokens_eq_error {position : Nat} {spaced : Bool} {codes : List Nat}
    {result : List Token} (hreads : Reads position spaced codes result) (fault : Utf8.Fault) :
    tokens (some fault) position spaced codes =
      .error ⟨.encoding fault, position + Utf8.sizeAll codes⟩ := by
  induction hreads with
  | finish position spaced =>
    rw [tokens]
    rfl
  | blank hblank _ ih => rw [tokens, if_pos hblank, ih, Utf8.sizeAll_cons, Nat.add_assoc]
  | lexeme hblank hread _ ih =>
    rw [tokens_cons_of_lexeme hblank (lexeme_of_ok hread _), ih, ← (lexeme_codes hread).1,
      Utf8.sizeAll_append, Nat.add_assoc]
    rfl

/-! ### Refusals for a fault of decoding -/

theorem superscript_eq_encoding {ending : Option Utf8.Fault} {codes : List Nat} {fault : Utf8.Fault}
    {offset : Nat} (hread : superscript ending codes = .error ⟨.encoding fault, offset⟩) :
    ending = some fault ∧ offset = Utf8.sizeAll codes := by
  have hcodes := codes_scanSuperscriptSign codes
  simp only [superscript] at hread
  split at hread
  · cases hread
  · split at hread
    · next hdigits =>
      split at hread
      · next hrest =>
        -- a sign is all there is
        cases hread
        rw [← List.takeWhile_append_dropWhile (p := isSuperscriptDigit)
          (l := (scanSuperscriptSign codes).2), hdigits, hrest, List.append_nil, List.append_nil]
          at hcodes
        exact ⟨rfl, by rw [hcodes]⟩
      · cases hread
    · cases hread

theorem number_ne_encoding {codes : List Nat} {fault : Utf8.Fault} {offset : Nat} :
    number codes ≠ .error ⟨.encoding fault, offset⟩ := by
  intro hread
  unfold number at hread
  split at hread
  · cases hread
  · split at hread
    · cases hread
    · split at hread <;> cases hread

theorem lexeme_eq_encoding {ending : Option Utf8.Fault} {first : Nat} {rest : List Nat}
    {fault : Utf8.Fault} {offset : Nat}
    (hread : lexeme ending first rest = .error ⟨.encoding fault, offset⟩) :
    ending = some fault ∧ offset = Utf8.sizeAll (first :: rest) := by
  unfold lexeme at hread
  split at hread
  · cases hread
  split at hread
  · cases hread
  split at hread
  · cases hread
  split at hread
  · exact absurd hread number_ne_encoding
  split at hread
  · exact superscript_eq_encoding hread
  split at hread <;> cases hread

/-- A fault of decoding lies behind all code points. -/
theorem tokens_eq_encoding {ending : Option Utf8.Fault} {position place : Nat} {spaced : Bool}
    {codes : List Nat} {fault : Utf8.Fault}
    (hread : tokens ending position spaced codes = .error ⟨.encoding fault, place⟩) :
    ending = some fault ∧ place = position + Utf8.sizeAll codes := by
  induction position, spaced, codes using tokens.induct ending with
  | case1 position spaced hending =>
    subst hending
    rw [tokens] at hread
    cases hread
  | case2 position spaced other hending =>
    subst hending
    rw [tokens] at hread
    cases hread
    exact ⟨rfl, rfl⟩
  | case3 position spaced first rest hblank ih =>
    rw [tokens, if_pos hblank] at hread
    obtain ⟨hending, hplace⟩ := ih hread
    exact ⟨hending, by rw [hplace, Utf8.sizeAll_cons, Nat.add_assoc]⟩
  | case4 position spaced first rest hblank failure hfailure =>
    rw [tokens_cons_of_failure hblank hfailure] at hread
    obtain ⟨lexical, offset⟩ := failure
    cases hread
    obtain ⟨hending, hoffset⟩ := lexeme_eq_encoding hfailure
    exact ⟨hending, by rw [hoffset]⟩
  | case5 position spaced first rest hblank read hlexeme ih =>
    rw [tokens_cons_of_lexeme (by simpa using hblank) hlexeme, map_eq_error_iff] at hread
    obtain ⟨hending, hplace⟩ := ih hread
    refine ⟨hending, ?_⟩
    rw [hplace, ← (lexeme_codes hlexeme).1, Utf8.sizeAll_append, Nat.add_assoc]

end Lexer

namespace Token

/-- A text is refused where decoding fails behind a text with tokens. -/
theorem ofText_of_fault {before rest : Text} {lead : UInt8} {fault : Utf8.Fault}
    {tokens : List Token} (hbefore : ofText before = .ok tokens)
    (hfault : Utf8.decode lead rest = .error fault) :
    ofText (before ++ lead :: rest) =
      .error ⟨.lexical (.encoding fault), before ++ lead :: rest, before.length⟩ := by
  obtain ⟨codes, hcodes, hreads⟩ := ofText_eq_ok_iff.mp hbefore
  have hwhole := Utf8.decodeAll_append (lead :: rest) hcodes
  rw [Utf8.decodeAll_cons_of_fault hfault, List.append_nil] at hwhole
  rw [ofText, hwhole]
  simp only [hreads.tokens_eq_error fault]
  rw [Nat.zero_add, Utf8.sizeAll, Utf8.encodeAll_of_decodeAll hcodes]
  rfl

/-- A text that is refused for a fault of decoding has that fault there. -/
theorem decode_of_ofText {text source : Text} {fault : Utf8.Fault} {position : Nat}
    (hread : ofText text = .error ⟨.lexical (.encoding fault), source, position⟩) :
    source = text ∧ ∃ lead rest, text.drop position = lead :: rest ∧
      Utf8.decode lead rest = .error fault := by
  rw [ofText] at hread
  cases hdecode : Utf8.decodeAll text with
  | mk codes ending =>
    rw [hdecode] at hread
    obtain ⟨⟨lexical, place⟩, hrefused, heq⟩ := mapError_eq_error_iff.mp hread
    cases heq
    obtain ⟨rfl, rfl⟩ := Lexer.tokens_eq_encoding hrefused
    obtain ⟨lead, rest, htext, hfault⟩ := Utf8.exists_decode_of_fault hdecode
    refine ⟨rfl, lead, rest, ?_, hfault⟩
    rw [Nat.zero_add, Utf8.sizeAll]
    exact htext ▸ List.drop_left

end Token

/-- What decoding does at a place of a text. It reads a code point exactly where the text goes on
with the shortest form of that code point, and leaves what comes behind the form. Everywhere else it
fails. It reports a form that is cut short exactly when the text ends before the length that its
byte announces, and otherwise depends on no byte behind the text. A text is refused for a fault of
decoding only at a place that has this fault, and is refused there when the text before it has
tokens. The code points with a shortest form are those below `0x200000`, each is read back from its
form, and no two of them share one. -/
theorem Utf8.decode_spec {text : Text} {position : Nat} (hposition : position < text.length) :
    (∃ lead rest, text.drop position = lead :: rest ∧
      (∀ code after, decode lead rest = .ok (code, after) ↔ ∃ form, IsShortestForm form code ∧
        form <+: text.drop position ∧ after = text.drop (position + form.length)) ∧
      ((∃ fault, decode lead rest = .error fault) ↔
        ∀ form code, IsShortestForm form code → ¬ form <+: text.drop position) ∧
      (decode lead rest = .error .truncated ↔
        ∃ length, Announces lead length ∧ text.length < position + length) ∧
      (decode lead rest ≠ .error .truncated → ∀ after, decode lead (rest ++ after) =
        (decode lead rest).map fun read ↦ (read.1, read.2 ++ after)) ∧
      ∀ fault,
        (Token.ofText text = .error ⟨.lexical (.encoding fault), text, position⟩ →
          decode lead rest = .error fault) ∧
        ∀ tokens, Token.ofText (text.take position) = .ok tokens →
          decode lead rest = .error fault →
            Token.ofText text = .error ⟨.lexical (.encoding fault), text, position⟩) ∧
    (∀ form code, IsShortestForm form code ↔ code < 0x200000 ∧ form = encode code) ∧
    (∀ code after, code < 0x200000 → ∃ lead rest, encode code ++ after = lead :: rest ∧
      decode lead rest = .ok (code, after)) ∧
    ∀ form first second, IsShortestForm form first → IsShortestForm form second →
      first = second := by
  refine ⟨?_, fun form code ↦ isShortestForm_iff, fun code after hcode ↦
    exists_decode_encode hcode after, fun form first second ↦ IsShortestForm.unique⟩
  have hdrop : text.drop position = text[position] :: text.drop (position + 1) :=
    List.drop_eq_getElem_cons hposition
  refine ⟨_, _, hdrop, fun code after ↦ decode_drop_eq_ok_iff hdrop,
    exists_decode_drop_eq_error_iff hdrop, decode_drop_eq_truncated_iff hdrop,
    decode_append_eq_map, fun fault ↦ ⟨fun hrefused ↦ ?_, fun tokens htokens hfault ↦ ?_⟩⟩
  · obtain ⟨_, lead, rest, hother, hfault⟩ := Token.decode_of_ofText hrefused
    rw [hdrop] at hother
    cases hother
    exact hfault
  · have hrefused := Token.ofText_of_fault htokens hfault
    rwa [← hdrop, List.take_append_drop, List.length_take_of_le (Nat.le_of_lt hposition)]
      at hrefused

/-- A letter in a form that is longer than it has to be is refused at its place. -/
theorem Utf8.decode_spec_overlong :
    1 < ([0x6D, 0xC1, 0xA1] : Text).length ∧ decode 0xC1 [0xA1] = .error .malformed ∧
      Token.ofText [0x6D, 0xC1, 0xA1] =
        .error ⟨.lexical (.encoding .malformed), [0x6D, 0xC1, 0xA1], 1⟩ := by
  have hposition : 1 < ([0x6D, 0xC1, 0xA1] : Text).length := by decide
  have hfault : decode 0xC1 [0xA1] = .error .malformed := by cbv
  have htokens : Token.ofText [0x6D] =
      .ok [⟨.symbol, [0x6D], 0, false⟩, ⟨.finish, [], 1, false⟩] := by
    have hcodes : decodeAll [0x6D] = ([0x6D], none) := @decodeAll_encodeAll [0x6D] (by decide)
    rw [Token.ofText, hcodes]
    exact Fallible.mapError_eq_ok_iff.mpr (by cbv)
  obtain ⟨⟨lead, rest, hdrop, _, _, _, _, hrefused⟩, _⟩ := decode_spec hposition
  cases hdrop
  exact ⟨hposition, hfault, (hrefused .malformed).2 _ htokens hfault⟩

end Metrology
