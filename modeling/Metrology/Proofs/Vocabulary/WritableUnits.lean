import Metrology.Proofs.Vocabulary.Extension
import Metrology.SI.Kinds

/-!
# Units that can be written

Declaring a unit asks of its symbol only that it is not empty and not taken. An expression asks
more: a symbol in it is a run of the characters of symbols. A unit whose symbol is such a run is
written by its symbol, which then stands for one of the unit (`parse_of_resolve`). Any other symbol
is read as several tokens or as none, and no expression mentions it (`Text.Mentions.isSymbol`).
-/

set_option autoImplicit false
set_option relaxedAutoImplicit false

namespace Metrology

/-- What a text mentions is one symbol on its own. -/
theorem Text.Mentions.isSymbol {text symbol : Text} (hmentions : text.Mentions symbol) :
    Token.IsSymbol symbol := by
  obtain ⟨tokens, token, htokens, htoken, hkind, rfl⟩ := hmentions
  exact Token.isSymbol_of_mem htokens htoken hkind

namespace Vocabulary

variable {vocabulary : Vocabulary}

/-- A symbol that is read as one token stands for one of what it resolves to. -/
theorem parse_of_resolve {symbol : Text} {reading : Reading} (hsymbol : Token.IsSymbol symbol)
    (hreading : vocabulary.resolve symbol = .ok reading) :
    vocabulary.parse symbol = .ok ⟨reading.scale, reading.dimension⟩ := by
  obtain ⟨token, final, htokens, hkind, rfl⟩ := hsymbol
  obtain ⟨_, _, heq, hfinal, _⟩ := Token.eq_append_finish_of_ofText htokens
  obtain ⟨rfl, hlast⟩ := List.append_inj' (heq.symm.trans (List.singleton_append).symm) rfl
  cases hlast
  let meaning : Meaning := ⟨⟨false, ⟨token.text, token.position⟩, 1⟩, reading⟩
  have hexpression : Grammar.Expression [token] none ([meaning].map Meaning.factor) :=
    .terms (.mk hkind .implicit) .nil
  have hterm : meaning.term = (⟨reading.scale, reading.dimension⟩ : Quantity).exact := by
    simp [meaning, Meaning.term, ExactQuantity.power, Quantity.exact]
  have hrange : meaning.term.InRange := hterm ▸ Quantity.inRange_exact _
  refine parse_eq_ok_iff.mpr ⟨[token], final, none, [meaning], htokens, hfinal, hexpression,
    fun other hother ↦ ?_, ?_, congrArg some hterm⟩
  · rw [List.mem_singleton.mp hother]
    exact hreading
  · refine Meaning.withinRange_cons_iff.mpr ⟨by simp, hrange, ?_⟩
    refine Meaning.withinRange_nil_iff.mpr fun value hvalue ↦ ?_
    cases hvalue
    exact hrange

/-- In every vocabulary, a unit whose symbol is read as one token is written by its symbol: that
text stands for the scale of the unit in its dimension. A unit with any other symbol cannot be
written at all, as no expression mentions it. -/
theorem parse_unit_spec {symbol : Text} {entry : UnitEntry}
    (hfind : vocabulary.findUnit symbol = some entry) :
    (Token.IsSymbol symbol → vocabulary.parse symbol = .ok ⟨entry.scale, entry.dimension⟩) ∧
      (¬ Token.IsSymbol symbol → ∀ text : Text, ¬ text.Mentions symbol) :=
  ⟨fun hsymbol ↦ parse_of_resolve hsymbol (resolve_of_findUnit hfind),
    fun hnot _ hmentions ↦ hnot hmentions.isSymbol⟩

/-- One part in a thousand, under a symbol beyond ASCII. -/
def permille : UnitEntry :=
  ⟨utf8 "‰", 0.001, .one, utf8 "per mille", []⟩

theorem parse_unit_spec_permille :
    (empty.withUnit permille).findUnit (utf8 "‰") = some permille ∧ Token.IsSymbol (utf8 "‰") ∧
      (empty.withUnit permille).parse (utf8 "‰") = .ok ⟨0.001, .one⟩ := by
  have hfind : (empty.withUnit permille).findUnit (utf8 "‰") = some permille := rfl
  have hsymbol : Token.IsSymbol (utf8 "‰") :=
    Token.isSymbol_iff.mpr
      ⟨[0x2030], @Utf8.decodeAll_encodeAll [0x2030] (by decide), by decide, by decide⟩
  exact ⟨hfind, hsymbol, (parse_unit_spec hfind).1 hsymbol⟩

/-- A unit whose symbol reads as a quotient. -/
def kilometrePerHour : UnitEntry :=
  ⟨utf8 "km/h", 0.2777777777777778, SI.Kind.speed, utf8 "kilometre per hour", []⟩

/-- The kilometre per hour on its own. -/
def speedometer : Vocabulary :=
  (empty.declareAll [.unitEntry kilometrePerHour]).1

/-- A unit may be declared that no expression can use: the text of its symbol asks for another
unit. -/
theorem parse_kilometrePerHour :
    speedometer.Reachable ∧ speedometer.findUnit (utf8 "km/h") = some kilometrePerHour ∧
      speedometer.parse (utf8 "km/h") =
        .error (.expression ⟨.symbol (.unknown (utf8 "km")), utf8 "km/h", 0⟩) := by
  have hcodes : Utf8.decodeAll (utf8 "km/h") = ([107, 109, 47, 104], none) :=
    @Utf8.decodeAll_encodeAll [107, 109, 47, 104] (by decide)
  have htokens := Token.ofText_eq_ok_iff.mpr
    ⟨_, hcodes, .lexeme rfl rfl (.lexeme rfl rfl (.lexeme rfl rfl (.finish 4 false)))⟩
  refine ⟨evolves_declareAll _ _, rfl, ?_⟩
  rw [parse, htokens]
  rfl

end Vocabulary

end Metrology
