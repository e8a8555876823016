import Metrology.Proofs.Expression.Separators

/-!
# Texts joined by blanks and operators

Reading is compositional: a text that continues another one with a blank or an operator is read as
the tokens of the first without its end of input, and then those of the second
(`ReadsText.append_iff`). Where in a text a part stands changes the positions of its tokens and
nothing else (`ReadsText.shift_iff`), the blanks before it are told by its first token
(`ReadsText.gap_append_iff`), and an operator before it is one token
(`ReadsText.operator_append_iff`). `Token.ofText_blanks` says of two whole texts what becomes of
them with blanks in between.
-/

set_option autoImplicit false
set_option relaxedAutoImplicit false

namespace Metrology

/-- A token that stands some bytes further on. -/
def Token.shift (offset : Nat) (token : Token) : Token :=
  { token with position := offset + token.position }

/-- A token with blanks before it. -/
def Token.afterBlanks (token : Token) : Token :=
  { token with spaced := true }

/-- Tokens that stand some bytes further on, behind blanks. -/
def Token.behindBlanks (offset : Nat) (tokens : List Token) : List Token :=
  (tokens.map (shift offset)).modifyHead afterBlanks

namespace Lexer

/-! ### The place of a text matters to positions only -/

namespace Reads

variable {position : Nat} {spaced : Bool} {codes : List Nat} {tokens : List Token}

theorem shift (offset : Nat) (hreads : Reads position spaced codes tokens) :
    Reads (offset + position) spaced codes (tokens.map (Token.shift offset)) := by
  induction hreads with
  | finish position spaced => exact .finish _ spaced
  | blank hblank _ ih =>
    rw [← Nat.add_assoc] at ih
    exact .blank hblank ih
  | lexeme hblank hread _ ih =>
    rw [← Nat.add_assoc] at ih
    exact .lexeme hblank hread ih

theorem afterBlanks (hreads : Reads position spaced codes tokens) :
    Reads position true codes (tokens.modifyHead Token.afterBlanks) := by
  cases hreads with
  | finish => exact .finish position true
  | @blank _ first _ rest _ hblank hrest =>
    -- the flag of the first token is set already, since a blank was skipped before it
    obtain ⟨token, others, rfl⟩ := hrest.exists_cons
    have hspaced : token.spaced = true := hrest.spaced_head rfl token rfl
    have hsame : token.afterBlanks = token := by
      rw [Token.afterBlanks, ← hspaced]
    rw [List.modifyHead_cons, hsame]
    exact .blank hblank hrest
  | lexeme hblank hread hrest => exact .lexeme hblank hread hrest

/-- Code points that are read at one place are read at every other. -/
theorem exists_reads (hreads : Reads position spaced codes tokens) (place : Nat) (blanks : Bool) :
    ∃ others, Reads place blanks codes others := by
  induction hreads generalizing place blanks with
  | finish => exact ⟨_, .finish place blanks⟩
  | blank hblank _ ih =>
    obtain ⟨others, hothers⟩ := ih _ true
    exact ⟨others, .blank hblank hothers⟩
  | lexeme hblank hread _ ih =>
    obtain ⟨others, hothers⟩ := ih _ false
    exact ⟨_, .lexeme hblank hread hothers⟩

theorem unique {others : List Token} (hreads : Reads position spaced codes tokens)
    (hothers : Reads position spaced codes others) : tokens = others :=
  Except.ok.inj (hreads.tokens_eq_ok.symm.trans hothers.tokens_eq_ok)

end Reads

/-! ### Texts that start with a separator -/

/-- The first character of a text is a blank or an operator. -/
def StartsSeparated (text : Text) : Prop :=
  ∃ code rest, separates code = true ∧ text = Utf8.encode code ++ rest

theorem lt_of_separates {code : Nat} (hcode : separates code = true) : code < 0x200000 :=
  (by decide : ∀ other ∈ separators, other < 0x200000) code (mem_separators hcode)

/-- Blanks are the forms of blank characters. -/
theorem IsGap.exists_blanks {gap : Text} (hgap : IsGap gap) :
    ∃ blanks, (∀ code ∈ blanks, isBlank code = true) ∧ gap = Utf8.encodeAll blanks := by
  obtain ⟨texts, htexts, rfl⟩ := hgap
  induction texts with
  | nil => exact ⟨[], by simp, rfl⟩
  | cons first rest ih =>
    obtain ⟨blanks, hblanks, hrest⟩ :=
      ih fun text htext ↦ htexts text (List.mem_cons_of_mem _ htext)
    obtain ⟨code, hcode, rfl⟩ : ∃ code, isBlank code = true ∧ Utf8.encode code = first := by
      have hforms : blankTexts = [32, 9, 13, 10, 0xA0].map Utf8.encode := by decide
      have hfirst := htexts first (by simp)
      rw [hforms] at hfirst
      obtain ⟨code, hcode, rfl⟩ := List.mem_map.mp hfirst
      exact ⟨code, (by decide : ∀ other ∈ [32, 9, 13, 10, 0xA0], isBlank other = true) code hcode,
        rfl⟩
    refine ⟨code :: blanks, by simpa using ⟨hcode, hblanks⟩, ?_⟩
    rw [List.flatten_cons, hrest, Utf8.encodeAll_cons]

theorem IsGap.startsSeparated_append {gap : Text} (hgap : IsGap gap) (hsome : gap ≠ [])
    (text : Text) : StartsSeparated (gap ++ text) := by
  obtain ⟨blanks, hblanks, rfl⟩ := hgap.exists_blanks
  cases blanks with
  | nil => exact absurd rfl hsome
  | cons code rest =>
    refine ⟨code, Utf8.encodeAll rest ++ text, separates_of_isBlank (hblanks code (by simp)), ?_⟩
    rw [Utf8.encodeAll_cons, List.append_assoc]

/-! ### Reading a part of a text -/

/-- A text is read, from a byte offset on, as tokens. -/
def ReadsText (position : Nat) (spaced : Bool) (text : Text) (tokens : List Token) : Prop :=
  ∃ codes, Utf8.decodeAll text = (codes, none) ∧ Reads position spaced codes tokens

namespace ReadsText

variable {position : Nat} {spaced : Bool} {text : Text} {tokens : List Token}

theorem unique {others : List Token} (hreads : ReadsText position spaced text tokens)
    (hothers : ReadsText position spaced text others) : tokens = others := by
  obtain ⟨codes, hdecode, hcodes⟩ := hreads
  obtain ⟨_, hsame, hother⟩ := hothers
  rw [hdecode, Prod.mk.injEq] at hsame
  obtain ⟨rfl, _⟩ := hsame
  exact hcodes.unique hother

theorem exists_readsText (hreads : ReadsText position spaced text tokens) (place : Nat)
    (blanks : Bool) : ∃ others, ReadsText place blanks text others := by
  obtain ⟨codes, hdecode, hcodes⟩ := hreads
  obtain ⟨others, hothers⟩ := hcodes.exists_reads place blanks
  exact ⟨others, codes, hdecode, hothers⟩

/-- A text is read anywhere as it is read by itself, at its place. -/
theorem shift_iff : ReadsText position false text tokens ↔
    ∃ others, ReadsText 0 false text others ∧ tokens = others.map (Token.shift position) := by
  have hmoved : ∀ {others}, ReadsText 0 false text others →
      ReadsText position false text (others.map (Token.shift position)) := by
    rintro others ⟨codes, hdecode, hcodes⟩
    exact ⟨codes, hdecode, hcodes.shift position⟩
  constructor
  · intro hreads
    obtain ⟨others, hothers⟩ := hreads.exists_readsText 0 false
    exact ⟨others, hothers, hreads.unique (hmoved hothers)⟩
  · rintro ⟨others, hothers, rfl⟩
    exact hmoved hothers

/-- Blanks before a text are told by its first token. -/
theorem afterBlanks_iff : ReadsText position true text tokens ↔
    ∃ others, ReadsText 0 false text others ∧ tokens = Token.behindBlanks position others := by
  have hmoved : ∀ {others}, ReadsText 0 false text others →
      ReadsText position true text (Token.behindBlanks position others) := by
    rintro others ⟨codes, hdecode, hcodes⟩
    exact ⟨codes, hdecode, (hcodes.shift position).afterBlanks⟩
  constructor
  · intro hreads
    obtain ⟨others, hothers⟩ := hreads.exists_readsText 0 false
    exact ⟨others, hothers, hreads.unique (hmoved hothers)⟩
  · rintro ⟨others, hothers, rfl⟩
    exact hmoved hothers

/-- A text is read up to a character that ends every lexeme before it, and from there on. -/
theorem append_iff_of_endsLexemes {first rest : Text} {code : Nat} (hcode : code < 0x200000)
    (hends : ∀ codes, Utf8.decodeAll first = (codes, none) → EndsLexemes codes code) :
    ReadsText position spaced (first ++ (Utf8.encode code ++ rest)) tokens ↔
      ∃ body final others, ReadsText position spaced first (body ++ [final]) ∧
        ReadsText final.position final.spaced (Utf8.encode code ++ rest) others ∧
        tokens = body ++ others := by
  have hrest := Utf8.decodeAll_encode_append hcode rest
  constructor
  · rintro ⟨codes, hdecode, hreads⟩
    obtain ⟨lead, tail, hencode, hlead⟩ := Utf8.exists_lead_encode hcode
    rw [hencode, List.cons_append] at hdecode
    -- no form goes on over the first byte of the character
    obtain ⟨before, behind, hbefore, hbehind, rfl⟩ :=
      Utf8.exists_decodeAll_of_append hlead hdecode
    rw [← List.cons_append, ← hencode, hrest, Prod.mk.injEq] at hbehind
    obtain ⟨rfl, hnone⟩ := hbehind
    obtain ⟨body, final, others, hbody, hothers, rfl⟩ :=
      hreads.split_of_endsLexemes (hends before hbefore)
    exact ⟨body, final, others, ⟨before, hbefore, hbody⟩,
      ⟨_, hrest.trans (Prod.ext rfl hnone), hothers⟩, rfl⟩
  · rintro ⟨body, final, others, ⟨before, hbefore, hbody⟩, ⟨behind, hbehind, hothers⟩, rfl⟩
    refine ⟨before ++ behind, by rw [Utf8.decodeAll_append _ hbefore, hbehind], ?_⟩
    rw [hrest, Prod.mk.injEq] at hbehind
    obtain ⟨rfl, _⟩ := hbehind
    exact hbody.append_of_endsLexemes (hends before hbefore) hothers

/-- A text is read up to a separator, and from there on. -/
theorem append_iff {first second : Text} (hsecond : StartsSeparated second) :
    ReadsText position spaced (first ++ second) tokens ↔
      ∃ body final others, ReadsText position spaced first (body ++ [final]) ∧
        ReadsText final.position final.spaced second others ∧ tokens = body ++ others := by
  obtain ⟨code, rest, hcode, rfl⟩ := hsecond
  exact append_iff_of_endsLexemes (lt_of_separates hcode)
    fun codes _ ↦ endsLexemes_of_separates hcode codes

/-- A blank is skipped, and the next token tells of it. -/
theorem blank_append_iff {code : Nat} (hblank : isBlank code = true) :
    ReadsText position spaced (Utf8.encode code ++ text) tokens ↔
      ReadsText (position + Utf8.size code) true text tokens := by
  have htext := Utf8.decodeAll_encode_append (lt_of_separates (separates_of_isBlank hblank)) text
  constructor
  · rintro ⟨codes, hdecode, hreads⟩
    rw [htext, Prod.mk.injEq] at hdecode
    obtain ⟨rfl, hnone⟩ := hdecode
    cases hreads with
    | blank _ hrest => exact ⟨_, Prod.ext rfl hnone, hrest⟩
    | lexeme hother _ _ =>
      rw [hblank] at hother
      cases hother
  · rintro ⟨codes, hdecode, hreads⟩
    exact ⟨code :: codes, by rw [htext, hdecode], .blank hblank hreads⟩

/-- An operator is one token. -/
theorem operator_append_iff {code : Nat} {kind : TokenKind}
    (hkind : operatorKind? code = some kind) :
    ReadsText position spaced (Utf8.encode code ++ text) tokens ↔
      ∃ others, ReadsText (position + Utf8.size code) false text others ∧
        tokens = ⟨kind, Utf8.encode code, position, spaced⟩ :: others := by
  have htext :=
    Utf8.decodeAll_encode_append (lt_of_separates (separates_of_operatorKind? hkind)) text
  have hcode : Utf8.encodeAll [code] = Utf8.encode code := by simp [Utf8.encodeAll]
  have hsize : Utf8.sizeAll [code] = Utf8.size code := by rw [Utf8.sizeAll_cons]; rfl
  constructor
  · rintro ⟨codes, hdecode, hreads⟩
    rw [htext, Prod.mk.injEq] at hdecode
    obtain ⟨rfl, hnone⟩ := hdecode
    cases hreads with
    | blank hblank _ =>
      rw [isBlank_of_operatorKind? hkind] at hblank
      cases hblank
    | lexeme _ hread hrest =>
      rw [lexeme_of_operatorKind? hkind, Except.ok.injEq] at hread
      subst hread
      rw [hsize] at hrest
      exact ⟨_, ⟨_, Prod.ext rfl hnone, hrest⟩, by rw [hcode]⟩
  · rintro ⟨others, ⟨codes, hdecode, hreads⟩, rfl⟩
    rw [← hsize] at hreads
    rw [← hcode]
    exact ⟨code :: codes, by rw [hcode, htext, hdecode],
      .lexeme (isBlank_of_operatorKind? hkind) (lexeme_of_operatorKind? hkind) hreads⟩

theorem blanks_append_iff {blanks : List Nat} (hblanks : ∀ code ∈ blanks, isBlank code = true) :
    ReadsText position spaced (Utf8.encodeAll blanks ++ text) tokens ↔
      ReadsText (position + (Utf8.encodeAll blanks).length) (spaced || !blanks.isEmpty) text
        tokens := by
  induction blanks generalizing position spaced with
  | nil => simp [Utf8.encodeAll]
  | cons code rest ih =>
    rw [Utf8.encodeAll_cons, List.append_assoc,
      blank_append_iff (hblanks code (by simp)),
      ih fun other hother ↦ hblanks other (List.mem_cons_of_mem code hother),
      List.length_append, ← Nat.add_assoc, Utf8.size]
    simp

/-- Blanks are skipped, and the next token tells of them. -/
theorem gap_append_iff {gap : Text} (hgap : IsGap gap) (hsome : gap ≠ []) :
    ReadsText position spaced (gap ++ text) tokens ↔
      ReadsText (position + gap.length) true text tokens := by
  obtain ⟨blanks, hblanks, rfl⟩ := hgap.exists_blanks
  have hcons : blanks ≠ [] := by
    rintro rfl
    exact hsome rfl
  rw [blanks_append_iff hblanks, List.isEmpty_eq_false_iff.mpr hcons, Bool.not_false, Bool.or_true]

end ReadsText

end Lexer

namespace Token

open Lexer

theorem ofText_eq_ok_iff_readsText {text : Text} {tokens : List Token} :
    ofText text = .ok tokens ↔ ReadsText 0 false text tokens :=
  ofText_eq_ok_iff

theorem position_final {text : Text} {body : List Token} {final : Token}
    (hread : ofText text = .ok (body ++ [final])) : final.position = text.length := by
  obtain ⟨_, last, htokens, _, hposition, _⟩ := (laysOut_of_ofText hread).exists_final
  obtain ⟨_, hfinal⟩ := List.append_inj' htokens rfl
  rw [(List.cons.inj hfinal).1, hposition, Nat.zero_add]

/-- Tokens of a text that starts with a separator are read behind those of the text before it. -/
theorem ofText_append_iff {first second : Text} {tokens : List Token}
    (hsecond : StartsSeparated second) :
    ofText (first ++ second) = .ok tokens ↔
      ∃ body final others, ofText first = .ok (body ++ [final]) ∧
        ReadsText first.length final.spaced second others ∧ tokens = body ++ others := by
  simp only [ofText_eq_ok_iff_readsText, ReadsText.append_iff hsecond]
  refine exists_congr fun body ↦ exists_congr fun final ↦ exists_congr fun others ↦ ?_
  refine and_congr_right fun hfirst ↦ ?_
  rw [position_final (ofText_eq_ok_iff_readsText.mpr hfirst)]

/-- Blanks between two texts join their tokens. -/
theorem ofText_gap_iff {first gap second : Text} {tokens : List Token} (hgap : IsGap gap)
    (hsome : gap ≠ []) :
    ofText (first ++ (gap ++ second)) = .ok tokens ↔
      ∃ body final others, ofText first = .ok (body ++ [final]) ∧ ofText second = .ok others ∧
        tokens = body ++ behindBlanks (first.length + gap.length) others := by
  rw [ofText_append_iff (hgap.startsSeparated_append hsome second)]
  simp only [ReadsText.gap_append_iff hgap hsome, ReadsText.afterBlanks_iff,
    ← ofText_eq_ok_iff_readsText]
  constructor
  · rintro ⟨body, final, _, hfirst, ⟨others, hothers, rfl⟩, rfl⟩
    exact ⟨body, final, others, hfirst, hothers, rfl⟩
  · rintro ⟨body, final, others, hfirst, hothers, rfl⟩
    exact ⟨body, final, _, hfirst, ⟨others, hothers, rfl⟩, rfl⟩

/-- For all texts and all blanks between them. Together they have tokens exactly when each of the
two texts does. The tokens then are those of the first one without its end of input, and those of
the second one at their new place, the first of which has blanks before it. -/
theorem ofText_blanks {first gap second : Text} (hgap : IsGap gap) (hsome : gap ≠ []) :
    ((∃ tokens, ofText (first ++ gap ++ second) = .ok tokens) ↔
      (∃ tokens, ofText first = .ok tokens) ∧ ∃ others, ofText second = .ok others) ∧
      ∀ tokens others, ofText first = .ok tokens → ofText second = .ok others →
        ∃ body final, tokens = body ++ [final] ∧ final.kind = .finish ∧
          ofText (first ++ gap ++ second) =
            .ok (body ++ behindBlanks (first.length + gap.length) others) := by
  rw [List.append_assoc]
  have hjoin : ∀ {tokens others}, ofText first = .ok tokens → ofText second = .ok others →
      ∃ body final, tokens = body ++ [final] ∧ final.kind = .finish ∧
        ofText (first ++ (gap ++ second)) =
          .ok (body ++ behindBlanks (first.length + gap.length) others) := by
    intro tokens others hfirst hsecond
    obtain ⟨body, final, rfl, hfinal, _⟩ := eq_append_finish_of_ofText hfirst
    exact ⟨body, final, rfl, hfinal,
      (ofText_gap_iff hgap hsome).mpr ⟨body, final, others, hfirst, hsecond, rfl⟩⟩
  refine ⟨⟨?_, ?_⟩, fun tokens others hfirst hsecond ↦ hjoin hfirst hsecond⟩
  · rintro ⟨tokens, hread⟩
    obtain ⟨body, final, others, hfirst, hsecond, _⟩ := (ofText_gap_iff hgap hsome).mp hread
    exact ⟨⟨_, hfirst⟩, others, hsecond⟩
  · rintro ⟨⟨tokens, hfirst⟩, others, hsecond⟩
    obtain ⟨_, _, _, _, hread⟩ := hjoin hfirst hsecond
    exact ⟨_, hread⟩

theorem ofText_blanks_no_break_space :
    ofText (utf8 "kg" ++ utf8 "\u00A0" ++ utf8 "m²") =
      .ok [⟨.symbol, utf8 "kg", 0, false⟩, ⟨.symbol, utf8 "m", 4, true⟩,
        ⟨.superscript 2, utf8 "²", 5, false⟩, ⟨.finish, [], 7, false⟩] := by
  have hkilogram : Utf8.decodeAll (utf8 "kg") = ([107, 103], none) := by cbv
  have hmetre : Utf8.decodeAll (utf8 "m²") = ([109, 178], none) := by cbv
  have hfirst : ofText (utf8 "kg") =
      .ok ([⟨.symbol, utf8 "kg", 0, false⟩] ++ [⟨.finish, [], 2, false⟩]) := by
    rw [ofText, hkilogram]
    exact Fallible.mapError_eq_ok_iff.mpr (by cbv)
  have hsecond : ofText (utf8 "m²") = .ok [⟨.symbol, utf8 "m", 0, false⟩,
      ⟨.superscript 2, utf8 "²", 1, false⟩, ⟨.finish, [], 3, false⟩] := by
    rw [ofText, hmetre]
    exact Fallible.mapError_eq_ok_iff.mpr (by cbv)
  have hgap : IsGap (utf8 "\u00A0") := ⟨[[0xC2, 0xA0]], by decide, by decide⟩
  obtain ⟨body, final, htokens, _, hread⟩ :=
    (ofText_blanks hgap (by decide)).2 _ _ hfirst hsecond
  obtain ⟨rfl, _⟩ := List.append_inj' htokens rfl
  exact hread

end Token

end Metrology
