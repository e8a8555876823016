import Metrology.Configuration.Units
import Metrology.Proofs.Expression.Meaning
import Metrology.Proofs.Numeric.Numerals
import Metrology.Proofs.Vocabulary.Failures

/-!
# Values that answer a default

The forms with a default warn of every error of the library and know no other. That nothing else can
come up rests on what reading an expression can fail with (`Vocabulary.Locates`): a value is refused
as an expression, for its dimension, or because the unit is zero. The conversion of a number to a
double is no further source of failure, as it is given texts of numerals only.
-/

set_option autoImplicit false
set_option relaxedAutoImplicit false

namespace Metrology

open Fallible

/-- The errors of a text that is to have a quantity of a given dimension. -/
inductive Vocabulary.Refuses (vocabulary : Vocabulary) (comparison : Comparison)
    (expected : Dimension) (text : Text) : Error → Prop
  | unread {error : Error} (locates : vocabulary.Locates text error) :
      Refuses vocabulary comparison expected text error
  | mismatch {actual : Dimension} (ne_expected : actual ≠ expected) :
      Refuses vocabulary comparison expected text
        (.dimension (.mismatch comparison expected actual))

namespace Vocabulary.WellFormed

variable {vocabulary : Vocabulary} (hvocabulary : vocabulary.WellFormed)

include hvocabulary

theorem refuses_of_parseAs {dimension : Dimension} {text : Text} {error : Error}
    (hfailed : vocabulary.parseAs dimension text = .error error) :
    vocabulary.Refuses (.expression text) dimension text error := by
  rcases parseAs_eq_error_iff.mp hfailed with hparse | ⟨quantity, _, hne, rfl⟩
  · exact .unread (hvocabulary.locates_of_parse hparse)
  · exact .mismatch hne

theorem refuses_of_convert {heading key value : Text} {unit : Quantity} {error : Error}
    (hfailed : Configuration.convert vocabulary heading key unit value = .error error) :
    vocabulary.Refuses (.setting heading key) unit.dimension value error ∨ error = .zeroUnit := by
  rcases bind_eq_error_iff.mp hfailed with hparse | ⟨quantity, _, hconvert⟩
  · exact .inl (.unread (hvocabulary.locates_of_parse hparse))
  · unfold Configuration.convertQuantity at hconvert
    split at hconvert
    · cases hconvert
    · split at hconvert
      · next hne =>
        cases hconvert
        exact .inl (.mismatch hne)
      · next hsame =>
        rw [Quantity.inUnit, if_neg hsame] at hconvert
        split at hconvert
        · cases hconvert
          exact .inr rfl
        · cases hconvert

theorem quantityOr_cases (configuration : Configuration) (heading key : Text)
    (dimension : Dimension) (default : Quantity) :
    (∃ result, configuration.quantityOr vocabulary heading key dimension default =
        .silent result) ∨
      ∃ value error, configuration.value? heading key = some value ∧
        configuration.quantityOr vocabulary heading key dimension default =
          .warning default (.invalidQuantity heading key error) ∧
        vocabulary.Refuses (.expression value) dimension value error := by
  unfold Configuration.quantityOr
  split
  · exact .inl ⟨default, rfl⟩
  · next value hvalue =>
    split
    · next result _ => exact .inl ⟨result, rfl⟩
    · next error hfailed =>
      exact .inr ⟨value, error, hvalue, rfl, hvocabulary.refuses_of_parseAs hfailed⟩

theorem doubleIn_cases (configuration : Configuration) (heading key : Text) (default : Float)
    (unit : Text) :
    (∃ result, configuration.doubleIn vocabulary heading key default unit = .silent result) ∨
      ∃ error, configuration.doubleIn vocabulary heading key default unit =
          .warning default (.conversion heading key error) ∧
        (vocabulary.Locates unit error ∨ ∃ parsed, vocabulary.parse unit = .ok parsed ∧
          (vocabulary.Refuses (.setting heading key) parsed.dimension
              (configuration.textOrEmpty heading key) error ∨ error = .zeroUnit)) := by
  unfold Configuration.doubleIn
  split
  · exact .inl ⟨default, rfl⟩
  · split
    · next result _ => exact .inl ⟨result, rfl⟩
    · next error hfailed =>
      refine .inr ⟨error, rfl, ?_⟩
      rcases bind_eq_error_iff.mp hfailed with hunit | ⟨parsed, hparsed, hconvert⟩
      · exact .inl (hvocabulary.locates_of_parse hunit)
      · exact .inr ⟨parsed, hparsed, hvocabulary.refuses_of_convert hconvert⟩

theorem doublesIn_cases (configuration : Configuration) (heading key unit : Text) :
    (∃ error, configuration.doublesIn vocabulary heading key unit =
          .warning [] (.invalidUnit unit heading key error) ∧ vocabulary.Locates unit error) ∨
      ∀ warning ∈ (configuration.doublesIn vocabulary heading key unit).warnings,
        ∃ piece ∈ Configuration.pieces (configuration.textOrEmpty heading key), ∃ parsed error,
          vocabulary.parse unit = .ok parsed ∧ warning = .pieceConversion piece error ∧
          (vocabulary.Refuses (.setting heading key) parsed.dimension piece error ∨
            error = .zeroUnit) := by
  unfold Configuration.doublesIn
  split
  · exact .inr (by simp [Reported.silent])
  · split
    · next parsed hparsed =>
      refine .inr fun warning hwarning ↦ ?_
      obtain ⟨answer, hanswer, hmem⟩ := List.mem_flatMap.mp hwarning
      obtain ⟨piece, hpiece, rfl⟩ := List.mem_map.mp hanswer
      unfold Configuration.pieceIn at hmem
      split at hmem
      · cases hmem
      · next error hfailed =>
        exact ⟨piece, hpiece, parsed, error, hparsed, List.mem_singleton.mp hmem,
          hvocabulary.refuses_of_convert hfailed⟩
    · next error hfailed => exact .inl ⟨error, rfl, hvocabulary.locates_of_parse hfailed⟩

end Vocabulary.WellFormed

/-- In every reachable vocabulary, a text without quantity has an exponent out of range, or is
refused at a byte offset of it; what the error quotes, and a symbol that has no reading, stands
there. The steps on the way have no failure of their own: a numeral that was found in a text is
always converted as itself, and no part of a text is taken from behind its end, as tokens stand in
their text and the prefixes that are tried are shorter than the symbol. The forms with a default
therefore answer without warning, or warn of an error in reading an expression, of another dimension
or of a unit that is zero. -/
theorem Vocabulary.Reachable.failure_spec {vocabulary : Vocabulary}
    (hreachable : vocabulary.Reachable) :
    (∀ text error, vocabulary.parse text = .error error → vocabulary.Locates text error) ∧
      (∀ codes numeral rest, Numeral.scan codes = some (numeral, rest) →
        Leading.conversion? ((Utf8.encodeAll numeral.codes).map UInt8.toNat) =
          some numeral.convert) ∧
      (∀ text tokens, Token.ofText text = .ok tokens →
        ∀ token ∈ tokens, text.HoldsAt token.text token.position) ∧
      (∀ symbol, ∀ length ∈ vocabulary.splitLengths symbol, length < symbol.length) ∧
      ∀ (configuration : Configuration) heading key,
        (∀ dimension default,
          (∃ result, configuration.quantityOr vocabulary heading key dimension default =
              .silent result) ∨
            ∃ value error, configuration.value? heading key = some value ∧
              configuration.quantityOr vocabulary heading key dimension default =
                .warning default (.invalidQuantity heading key error) ∧
              vocabulary.Refuses (.expression value) dimension value error) ∧
        (∀ default unit,
          (∃ result, configuration.doubleIn vocabulary heading key default unit =
              .silent result) ∨
            ∃ error, configuration.doubleIn vocabulary heading key default unit =
                .warning default (.conversion heading key error) ∧
              (vocabulary.Locates unit error ∨ ∃ parsed, vocabulary.parse unit = .ok parsed ∧
                (vocabulary.Refuses (.setting heading key) parsed.dimension
                    (configuration.textOrEmpty heading key) error ∨ error = .zeroUnit))) ∧
        ∀ unit,
          (∃ error, configuration.doublesIn vocabulary heading key unit =
                .warning [] (.invalidUnit unit heading key error) ∧
              vocabulary.Locates unit error) ∨
            ∀ warning ∈ (configuration.doublesIn vocabulary heading key unit).warnings,
              ∃ piece ∈ Configuration.pieces (configuration.textOrEmpty heading key),
                ∃ parsed error, vocabulary.parse unit = .ok parsed ∧
                  warning = .pieceConversion piece error ∧
                  (vocabulary.Refuses (.setting heading key) parsed.dimension piece error ∨
                    error = .zeroUnit) := by
  have hvocabulary := hreachable.wellFormed
  exact ⟨fun text error ↦ hvocabulary.locates_of_parse,
    fun codes numeral rest ↦ Numeral.conversion?_of_scan,
    fun text tokens htokens token ↦ Vocabulary.holdsAt_of_ofText htokens,
    fun symbol length hlength ↦ (mem_splitLengths_iff.mp hlength).2.2,
    fun configuration heading key ↦ ⟨hvocabulary.quantityOr_cases configuration heading key,
      hvocabulary.doubleIn_cases configuration heading key,
      hvocabulary.doublesIn_cases configuration heading key⟩⟩

theorem failure_spec_kilobyte :
    Vocabulary.kibibytes.Reachable ∧ ∃ error,
      Vocabulary.kibibytes.parse (utf8 "3 kB") = .error error ∧
        Vocabulary.kibibytes.Locates (utf8 "3 kB") error := by
  have hfailed : (Vocabulary.kibibytes.parse (utf8 "3 kB")).toBool = false := by decide +kernel
  cases hparse : Vocabulary.kibibytes.parse (utf8 "3 kB") with
  | ok quantity =>
    rw [hparse] at hfailed
    cases hfailed
  | error error =>
    exact ⟨Vocabulary.reachable_kibibytes, error, rfl,
      (Vocabulary.Reachable.failure_spec Vocabulary.reachable_kibibytes).1 _ _ hparse⟩

end Metrology
