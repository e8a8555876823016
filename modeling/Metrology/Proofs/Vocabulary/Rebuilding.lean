import Metrology.Proofs.Vocabulary.Seeding

/-!
# Rebuilding a built vocabulary

A vocabulary that builds is copied to one that builds again, and nothing that is asked of the copy
has another answer, whether a unit is acknowledged included (`Reachable.rebuild_spec`). What a copy
loses is the acknowledgements of symbols that are no units; these hide no reading, so the check for
hidden readings passes without them (`SameEntries.build_of_build`).
-/

set_option autoImplicit false
set_option relaxedAutoImplicit false

namespace Metrology.Vocabulary

open Declaration

/-- The same entries still build where every unit keeps its acknowledgement. -/
theorem SameEntries.build_of_build {first second : Vocabulary} (hsame : first.SameEntries second)
    (hfirst : first.WellFormed) (hsecond : second.WellFormed)
    (hkept : ∀ symbol, (∃ entry, second.findUnit symbol = some entry) →
      second.Acknowledges symbol → first.Acknowledges symbol)
    (hbuild : second.build = .ok second) : first.build = .ok first := by
  refine hfirst.build_eq_ok_iff.mpr ⟨fun symbol hhides ↦ ?_, rfl⟩
  have hunit : ∃ entry, second.findUnit symbol = some entry := by
    obtain ⟨symbols, rfl⟩ := hsame
    obtain ⟨entry, _, _, hfind, _⟩ := hhides
    exact ⟨entry, hfind⟩
  exact (hsecond.build_eq_ok_iff.mp hbuild).1 symbol (hsame.hidesReading_of (hkept symbol hunit)
    hhides)

/-- A vocabulary that was built is copied without a refusal, the copy builds as well, and it has the
same answers: the same symbols in the same order, the same categories, units and prefixes, the same
acknowledgements of units, the same readings of symbols, the same texts of dimensions and the same
quantity or error for every expression. -/
theorem Reachable.rebuild_spec {vocabulary table : Vocabulary} (hreachable : vocabulary.Reachable)
    (hbuild : vocabulary.build = .ok table) :
    ∃ copy rebuilt, empty.seed table = (copy, none) ∧ copy.build = .ok rebuilt ∧
      rebuilt.unitOrder = table.unitOrder ∧
      rebuilt.prefixOrder = table.prefixOrder ∧
      rebuilt.longestPrefix = table.longestPrefix ∧
      rebuilt.categories = table.categories ∧
      (∀ category, rebuilt.symbolsIn category = table.symbolsIn category ∧
        rebuilt.unitsIn category = table.unitsIn category) ∧
      (∀ symbol, rebuilt.findUnit symbol = table.findUnit symbol) ∧
      (∀ symbol, rebuilt.findPrefix symbol = table.findPrefix symbol) ∧
      (∀ symbol ∈ table.unitOrder,
        (rebuilt.Acknowledges symbol ↔ table.Acknowledges symbol)) ∧
      (∀ symbol, rebuilt.decompositions symbol = table.decompositions symbol) ∧
      (∀ symbol, rebuilt.resolve symbol = table.resolve symbol) ∧
      (∀ dimension, rebuilt.render dimension = table.render dimension) ∧
      ∀ text, rebuilt.parse text = table.parse text := by
  have htable := hreachable.wellFormed
  obtain ⟨_, rfl⟩ := htable.build_eq_ok_iff.mp hbuild
  obtain ⟨copy, hcopy, hsame, hkept⟩ := htable.seed_empty
  have hrebuilt := hsame.build_of_build (wellFormed_empty.declareAll hcopy) htable
    (fun symbol hunit hacknowledged ↦ (hkept symbol).mpr ⟨hacknowledged, hunit⟩) hbuild
  have hacknowledges : ∀ symbol ∈ vocabulary.unitOrder,
      (copy.Acknowledges symbol ↔ vocabulary.Acknowledges symbol) := by
    intro symbol hsymbol
    rw [hkept]
    exact and_iff_left ((htable.mem_unitOrder_iff symbol).mp hsymbol)
  refine ⟨copy, copy, hcopy, hrebuilt, ?_⟩
  obtain ⟨symbols, rfl⟩ := hsame
  exact ⟨rfl, rfl, rfl, rfl, fun _ ↦ ⟨rfl, rfl⟩, fun _ ↦ rfl, fun _ ↦ rfl, hacknowledges,
    fun _ ↦ rfl, fun _ ↦ rfl, congrFun (render_withAcknowledged vocabulary symbols),
    parse_congr fun _ ↦ rfl⟩

/-- The candela with its acknowledgement, and one of a symbol that is no unit. -/
def forewarned : Vocabulary :=
  (empty.declareAll (.acknowledgement (utf8 "min") :: acknowledgedCandela)).1

theorem reachable_forewarned : forewarned.Reachable :=
  evolves_declareAll _ _

theorem rebuild_spec_forewarned :
    forewarned.Reachable ∧ forewarned.build = .ok forewarned ∧
      ∃ copy rebuilt, empty.seed forewarned = (copy, none) ∧ copy.build = .ok rebuilt ∧
        (forewarned.Acknowledges (utf8 "min") ∧ ¬ rebuilt.Acknowledges (utf8 "min")) ∧
        rebuilt.Acknowledges (utf8 "cd") ∧
        ∀ text, rebuilt.parse text = forewarned.parse text := by
  have hbuild : forewarned.build = .ok forewarned := rfl
  obtain ⟨copy, rebuilt, hcopy, hrebuilt, _, _, _, _, _, _, _, hacknowledges, _, _, _, hparse⟩ :=
    Reachable.rebuild_spec reachable_forewarned hbuild
  refine ⟨reachable_forewarned, hbuild, copy, rebuilt, hcopy, hrebuilt, ⟨by decide, ?_⟩,
    (hacknowledges (utf8 "cd") (by decide)).mpr (by decide), hparse⟩
  cases hcopy
  cases hrebuilt
  decide

end Metrology.Vocabulary
