import Metrology.Text.Order
import Metrology.Text.Utf8

/-!
# Dimensions

A dimension is a product of base dimensions to integer powers. Base dimensions are named by any
text, so that there may be more of them than those of the International System. A dimension keeps
the entries with an exponent other than zero, in byte order of their identifiers, each within the
range of exponents; hence two dimensions are equal when all exponents agree
(`Dimension.ext_exponent`).
-/

set_option autoImplicit false
set_option relaxedAutoImplicit false

namespace Metrology

/-- Exponents are 32-bit signed integers. -/
abbrev InExponentRange (exponent : Int) : Prop :=
  -2147483648 ≤ exponent ∧ exponent ≤ 2147483647

/-- A product of base dimensions to integer powers. -/
structure Dimension where
  /-- The base dimensions that take part, with their exponents. -/
  entries : List (Text × Int)
  increasing : Text.Increasing (entries.map Prod.fst) := by decide
  nonzero : ∀ entry ∈ entries, entry.2 ≠ 0 := by decide
  inRange : ∀ entry ∈ entries, InExponentRange entry.2 := by decide
  deriving DecidableEq

namespace Dimension

/-- The dimension of a plain number. -/
def one : Dimension where
  entries := []

/-- The identifiers of the base dimensions that take part, in byte order. -/
def identifiers (dimension : Dimension) : List Text :=
  dimension.entries.map Prod.fst

/-- The exponent of a base dimension, zero when it takes no part. -/
def exponent (dimension : Dimension) (identifier : Text) : Int :=
  (dimension.entries.lookup identifier).getD 0

theorem ext_entries {first second : Dimension} (hentries : first.entries = second.entries) :
    first = second := by
  cases first
  cases second
  simp_all

@[simp] theorem exponent_one (identifier : Text) : one.exponent identifier = 0 := rfl

theorem exponent_of_mem {dimension : Dimension} {identifier : Text} {exponent : Int}
    (hentry : (identifier, exponent) ∈ dimension.entries) :
    dimension.exponent identifier = exponent := by
  rw [Dimension.exponent, Text.lookup_of_increasing dimension.increasing hentry, Option.getD_some]

theorem mem_entries_iff {dimension : Dimension} {entry : Text × Int} :
    entry ∈ dimension.entries ↔ dimension.exponent entry.1 = entry.2 ∧ entry.2 ≠ 0 := by
  refine ⟨fun hentry ↦ ⟨exponent_of_mem hentry, dimension.nonzero _ hentry⟩, fun ⟨heq, hne⟩ ↦ ?_⟩
  unfold Dimension.exponent at heq
  cases hlookup : dimension.entries.lookup entry.1 with
  | none => rw [hlookup, Option.getD_none] at heq; exact absurd heq.symm hne
  | some value =>
    rw [hlookup, Option.getD_some] at heq
    obtain ⟨l, r, hsplit, _⟩ := List.lookup_eq_some_iff.mp hlookup
    rw [hsplit, show entry = (entry.1, value) from Prod.ext rfl heq.symm]
    simp

theorem mem_identifiers_iff {dimension : Dimension} {identifier : Text} :
    identifier ∈ dimension.identifiers ↔ dimension.exponent identifier ≠ 0 := by
  rw [identifiers, List.mem_map]
  refine ⟨fun ⟨entry, hentry, heq⟩ ↦ ?_,
    fun hne ↦ ⟨(identifier, dimension.exponent identifier), ?_, rfl⟩⟩
  · obtain ⟨hexponent, hne⟩ := mem_entries_iff.mp hentry
    rw [← heq, hexponent]
    exact hne
  · exact mem_entries_iff.mpr ⟨rfl, hne⟩

theorem inExponentRange_exponent (dimension : Dimension) (identifier : Text) :
    InExponentRange (dimension.exponent identifier) := by
  by_cases hzero : dimension.exponent identifier = 0
  · rw [hzero]
    decide
  · exact dimension.inRange (identifier, _) (mem_entries_iff.mpr ⟨rfl, hzero⟩)

theorem entries_eq_map (dimension : Dimension) :
    dimension.entries = dimension.identifiers.map fun identifier ↦
      (identifier, dimension.exponent identifier) := by
  rw [identifiers, List.map_map]
  conv => lhs; rw [← List.map_id dimension.entries]
  refine List.map_congr_left fun entry hentry ↦ ?_
  rw [Function.comp_apply, (mem_entries_iff.mp hentry).1, id]

/-- Dimensions are equal when every exponent agrees. -/
theorem ext_exponent {first second : Dimension}
    (hexponent : ∀ identifier, first.exponent identifier = second.exponent identifier) :
    first = second := by
  have hidentifiers : first.identifiers = second.identifiers :=
    Text.eq_of_mem_iff first.increasing second.increasing fun identifier ↦ by
      rw [mem_identifiers_iff, mem_identifiers_iff, hexponent]
  refine ext_entries ?_
  rw [entries_eq_map first, entries_eq_map second, hidentifiers]
  exact List.map_congr_left fun identifier _ ↦ by rw [hexponent]

end Dimension

end Metrology
