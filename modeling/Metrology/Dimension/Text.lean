import Metrology.Dimension.Basic
import Metrology.Text.Decimal

/-!
# The text of a dimension

The seven base dimensions of the International System come first, in the order in which it lists
them; all others follow in byte order. A dimension is written as its base dimensions in that order,
each with its exponent unless that is one: `L^2 M T^-3`. The dimension of a plain number is written
as a word.
-/

set_option autoImplicit false
set_option relaxedAutoImplicit false

namespace Metrology

namespace BaseDimension

/-! ### Identifiers of the base dimensions of the International System -/

def length : Text := utf8 "L"
def mass : Text := utf8 "M"
def time : Text := utf8 "T"
def electricCurrent : Text := utf8 "I"
def temperature : Text := utf8 "Θ"
def amountOfSubstance : Text := utf8 "N"
def luminousIntensity : Text := utf8 "J"

/-- The base dimensions of the International System, in its order. -/
def international : List Text :=
  [length, mass, time, electricCurrent, temperature, amountOfSubstance, luminousIntensity]

end BaseDimension

namespace Dimension

/-- The place of a base dimension in the order of writing; all custom ones share the last place. -/
def canonicalRank (identifier : Text) : Nat :=
  BaseDimension.international.idxOf identifier

/-- The base dimensions of a dimension in the order of writing. -/
def canonicalOrder (dimension : Dimension) : List Text :=
  BaseDimension.international.filter (· ∈ dimension.identifiers) ++
    dimension.identifiers.filter (· ∉ BaseDimension.international)

/-- An exponent is written after a caret, unless it is one. -/
def exponentSuffix (exponent : Int) : Text :=
  if exponent = 1 then [] else utf8 "^" ++ Decimal.ofInt exponent

/-- A base dimension of a dimension, written by a given name, with its exponent. -/
def powerText (dimension : Dimension) (identifier name : Text) : Text :=
  name ++ exponentSuffix (dimension.exponent identifier)

/-- The text of a dimension. -/
def toText (dimension : Dimension) : Text :=
  if dimension = one then utf8 "dimensionless"
  else (utf8 " ").intercalate <| dimension.canonicalOrder.map fun identifier ↦
    dimension.powerText identifier identifier

@[simp] theorem mem_canonicalOrder {dimension : Dimension} {identifier : Text} :
    identifier ∈ dimension.canonicalOrder ↔ identifier ∈ dimension.identifiers := by
  simp only [canonicalOrder, List.mem_append, List.mem_filter, decide_eq_true_eq]
  by_cases h : identifier ∈ BaseDimension.international <;> simp [h]

theorem canonicalOrder_eq_nil_iff {dimension : Dimension} :
    dimension.canonicalOrder = [] ↔ dimension = one := by
  constructor
  · intro horder
    refine ext_exponent fun identifier ↦ Decidable.byContradiction fun hne ↦ ?_
    have hmem := mem_canonicalOrder.mpr (mem_identifiers_iff.mpr hne)
    rw [horder] at hmem
    cases hmem
  · rintro rfl
    rfl

theorem nodup_identifiers (dimension : Dimension) : dimension.identifiers.Nodup :=
  Text.nodup_of_increasing dimension.increasing

theorem nodup_canonicalOrder (dimension : Dimension) : dimension.canonicalOrder.Nodup := by
  have hinternational : BaseDimension.international.Nodup := by decide
  refine List.nodup_append.mpr ⟨hinternational.filter _,
    dimension.nodup_identifiers.filter _, ?_⟩
  intro first hfirst second hsecond heq
  have hin := (List.mem_filter.mp hfirst).1
  have hout := (List.mem_filter.mp hsecond).2
  rw [← heq, decide_eq_true_eq] at hout
  exact hout hin

end Dimension

end Metrology
