import Metrology.Text.Basic

/-!
# Splitting joined texts

Splitting at a byte is the splitting of lists (`splitOn_eq`), so that what is put together with the
byte in between falls apart at the same places: `splitOn_intercalate` for texts that may hold the
byte themselves, and `splitOn_intercalate_of_not_mem` for those that do not.
-/

set_option autoImplicit false
set_option relaxedAutoImplicit false

namespace Metrology.Text

variable {delimiter : UInt8}

theorem splitOn_eq (delimiter : UInt8) (text : Text) :
    splitOn delimiter text = List.splitOn delimiter text := by
  induction text with
  | nil => rfl
  | cons byte rest ih =>
    rw [splitOn, ih, List.splitOn_cons_eq_if_modifyHead]
    simp only [beq_iff_eq]

theorem splitOn_append (first second : Text) :
    splitOn delimiter (first ++ delimiter :: second) =
      splitOn delimiter first ++ splitOn delimiter second := by
  simp only [splitOn_eq, List.splitOn_append_cons_self]

theorem splitOn_of_not_mem {text : Text} (htext : delimiter ∉ text) :
    splitOn delimiter text = [text] := by
  rw [splitOn_eq, List.splitOn_eq_singleton htext]

/-- Texts that are joined by a byte are split at that byte, and each of them as it is alone. -/
theorem splitOn_intercalate {texts : List Text} (hsome : texts ≠ []) :
    splitOn delimiter ([delimiter].intercalate texts) = texts.flatMap (splitOn delimiter) := by
  induction texts with
  | nil => exact absurd rfl hsome
  | cons first rest ih =>
    cases rest with
    | nil => simp
    | cons second rest =>
      rw [List.intercalate_cons_cons, List.append_assoc, List.singleton_append, splitOn_append,
        ih (List.cons_ne_nil second rest)]
      exact List.flatMap_cons.symm

theorem splitOn_intercalate_of_not_mem {texts : List Text} (hsome : texts ≠ [])
    (htexts : ∀ text ∈ texts, delimiter ∉ text) :
    splitOn delimiter ([delimiter].intercalate texts) = texts := by
  rw [splitOn_eq, List.splitOn_intercalate delimiter htexts hsome]

end Metrology.Text
