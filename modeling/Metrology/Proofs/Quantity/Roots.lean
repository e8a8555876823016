import Metrology.Proofs.Dimension.ExactExponents
import Metrology.Proofs.Quantity.Exact

/-!
# Roots undo powers

A dimension has a root when the order is not zero and divides every exponent, and the quotients are
in range; that fails for the order minus one and the least exponent only
(`Dimension.exists_root_iff`). A root takes part in the same base dimensions, so that none of its
exponents is zero, and its power is the dimension again. The roots of quantities act on dimensions
in this way, whatever they do to the magnitude (`Quantity.isRoot_withDimension`).
-/

set_option autoImplicit false
set_option relaxedAutoImplicit false

namespace Metrology

/-- An exact quotient of an exponent is in range, except for the negative of the least exponent. -/
theorem inExponentRange_of_mul {order quotient : Int} (horder : order ≠ 0)
    (hrange : InExponentRange (order * quotient))
    (hlowest : ¬ (order = -1 ∧ order * quotient = -2147483648)) : InExponentRange quotient := by
  have hle : quotient.natAbs ≤ (order * quotient).natAbs := by
    rw [Int.natAbs_mul]
    exact Nat.le_mul_of_pos_left _ (Int.natAbs_pos.mpr horder)
  have hhighest : quotient ≠ 2147483648 := by
    rintro rfl
    omega
  omega

namespace Dimension

variable {dimension result : Dimension} {order : Int}

/-- A root of an order is defined: the order is not zero, it divides every exponent, and it is not
minus one where there is a least exponent. -/
def HasRoot (dimension : Dimension) (order : Int) : Prop :=
  order ≠ 0 ∧ (∀ identifier, order ∣ dimension.exponent identifier) ∧
    ¬ (order = -1 ∧ ∃ identifier, dimension.exponent identifier = -2147483648)

theorem HasRoot.inExponentRange (hroot : dimension.HasRoot order) (identifier : Text) :
    InExponentRange (dimension.exponent identifier / order) := by
  obtain ⟨horder, hdivides, hlowest⟩ := hroot
  have hrange := dimension.inExponentRange_exponent identifier
  rw [← Int.mul_ediv_cancel' (hdivides identifier)] at hrange
  refine inExponentRange_of_mul horder hrange fun ⟨hinverse, hleast⟩ ↦ ?_
  rw [Int.mul_ediv_cancel' (hdivides identifier)] at hleast
  exact hlowest ⟨hinverse, identifier, hleast⟩

theorem exists_root_iff :
    (∃ result, dimension.root order = .ok result) ↔ dimension.HasRoot order := by
  constructor
  · rintro ⟨result, hresult⟩
    obtain ⟨horder, hexponent⟩ := root_eq_ok_iff.mp hresult
    refine ⟨horder, fun identifier ↦ ⟨_, hexponent identifier⟩, ?_⟩
    rintro ⟨rfl, identifier, hleast⟩
    have hrange := result.inExponentRange_exponent identifier
    rw [hexponent] at hleast
    omega
  · intro hroot
    have habsent : ∀ identifier, identifier ∉ dimension.identifiers →
        dimension.exponent identifier / order = 0 := fun identifier hnot ↦ by
      rw [exponent_eq_zero_of_not_mem hnot, Int.zero_ediv]
    obtain ⟨result, hresult⟩ :=
      (exists_ofExponents_eq_ok_iff habsent).mpr hroot.inExponentRange
    refine ⟨result, root_eq_ok_iff.mpr ⟨hroot.1, fun identifier ↦ ?_⟩⟩
    rw [(ofExponents_eq_ok_iff_of_absent habsent).mp hresult,
      Int.mul_ediv_cancel' (hroot.2.1 identifier)]

/-- The same base dimensions take part in a root. -/
theorem identifiers_of_root (hroot : dimension.root order = .ok result) :
    result.identifiers = dimension.identifiers := by
  obtain ⟨horder, hexponent⟩ := root_eq_ok_iff.mp hroot
  refine Text.eq_of_mem_iff result.increasing dimension.increasing fun identifier ↦ ?_
  rw [mem_identifiers_iff, mem_identifiers_iff, hexponent, Int.mul_ne_zero_iff]
  exact (and_iff_right horder).symm

/-- A root divides the exponent of every entry, and leaves none out. -/
theorem entries_of_root (hroot : dimension.root order = .ok result) :
    result.entries = dimension.entries.map fun entry ↦ (entry.1, entry.2 / order) := by
  obtain ⟨horder, hexponent⟩ := root_eq_ok_iff.mp hroot
  rw [entries_eq_map result, identifiers_of_root hroot, entries_eq_map dimension, List.map_map]
  refine List.map_congr_left fun identifier _ ↦ ?_
  rw [Function.comp_apply, hexponent, Int.mul_ediv_cancel_left _ horder]

theorem power_of_root (hroot : dimension.root order = .ok result) :
    result.power order = .ok dimension :=
  power_eq_ok_iff.mpr (root_eq_ok_iff.mp hroot).2

theorem root_of_power (horder : order ≠ 0) (hpower : dimension.power order = .ok result) :
    result.root order = .ok dimension :=
  root_eq_ok_iff.mpr ⟨horder, power_eq_ok_iff.mp hpower⟩

end Dimension

namespace Quantity

/-- An operation takes the root of an order of the dimensions of quantities, and undoes the power by
that order, as that power undoes it. -/
structure IsRoot (root : Quantity → Except DimensionError Quantity) (order : Int) : Prop where
  exists_iff : ∀ quantity,
    (∃ result, root quantity = .ok result) ↔ quantity.dimension.HasRoot order
  power_of_root : ∀ quantity result, root quantity = .ok result →
    ∃ power, result.power order = .ok power ∧ power.dimension = quantity.dimension
  root_of_power : order ≠ 0 → ∀ quantity power : Quantity, quantity.power order = .ok power →
    ∃ result, root power = .ok result ∧ result.dimension = quantity.dimension

theorem exists_withDimension {magnitude : Float} {dimension : Except DimensionError Dimension}
    {value : Dimension} (hvalue : dimension = .ok value) :
    ∃ result, withDimension magnitude dimension = .ok result ∧ result.dimension = value :=
  ⟨⟨magnitude, value⟩, withDimension_eq_ok_iff.mpr ⟨hvalue, rfl⟩, rfl⟩

/-- Whatever becomes of the magnitude, the dimension decides. -/
theorem isRoot_withDimension (magnitude : Quantity → Float) (order : Int) :
    IsRoot (fun quantity ↦ withDimension (magnitude quantity) (quantity.dimension.root order))
      order where
  exists_iff _ := exists_withDimension_iff.trans Dimension.exists_root_iff
  power_of_root _ _ hroot :=
    exists_withDimension (Dimension.power_of_root (withDimension_eq_ok_iff.mp hroot).1)
  root_of_power horder _ _ hpower :=
    exists_withDimension (Dimension.root_of_power horder (withDimension_eq_ok_iff.mp hpower).1)

/-- For every dimension and every order. There is a root exactly when the order is not zero, divides
every exponent, and is not minus one where there is a least exponent. Its entries are those of the
dimension with their exponents divided, none of which is zero, and its power is the dimension again.
The root of a power, where there is one and the order is not zero, is the dimension again. The same
holds of the dimensions of quantities under roots of any order, square roots and cube roots. -/
theorem root_power_spec (dimension : Dimension) (order : Int) :
    ((∃ result, dimension.root order = .ok result) ↔ order ≠ 0 ∧
        (∀ identifier, order ∣ dimension.exponent identifier) ∧
          ¬ (order = -1 ∧ ∃ identifier, dimension.exponent identifier = -2147483648)) ∧
      (∀ result, dimension.root order = .ok result →
        result.entries = dimension.entries.map (fun entry ↦ (entry.1, entry.2 / order)) ∧
          (∀ entry ∈ result.entries, entry.2 ≠ 0) ∧ result.power order = .ok dimension) ∧
      (order ≠ 0 → ∀ result, dimension.power order = .ok result →
        result.root order = .ok dimension) ∧
      IsRoot (fun quantity ↦ quantity.root order) order ∧ IsRoot sqrt 2 ∧ IsRoot cbrt 3 := by
  refine ⟨Dimension.exists_root_iff, fun result hroot ↦ ?_,
    fun horder result ↦ Dimension.root_of_power horder, isRoot_withDimension _ order,
    isRoot_withDimension _ 2, isRoot_withDimension _ 3⟩
  exact ⟨Dimension.entries_of_root hroot, result.nonzero, Dimension.power_of_root hroot⟩

open Dimension in
/-- The least exponent has no root of order minus one, and has one of its own order. -/
theorem root_power_spec_lowest :
    (¬ ∃ result, lowest.root (-1) = .ok result) ∧
      ∃ result, lowest.root (-2147483648) = .ok result ∧
        result.power (-2147483648) = .ok lowest := by
  have hlength : lowest.exponent BaseDimension.length = -2147483648 := by decide
  have hdivides : ∀ identifier, (-2147483648 : Int) ∣ lowest.exponent identifier := by
    intro identifier
    by_cases hmem : identifier ∈ lowest.identifiers
    · obtain rfl := List.mem_singleton.mp hmem
      exact ⟨1, by rw [hlength, Int.mul_one]⟩
    · rw [exponent_eq_zero_of_not_mem hmem]
      exact Int.dvd_zero _
  obtain ⟨hinverse, -⟩ := root_power_spec lowest (-1)
  obtain ⟨hexists, hroot, -⟩ := root_power_spec lowest (-2147483648)
  obtain ⟨result, hresult⟩ := hexists.mpr ⟨by decide, hdivides, fun h ↦ absurd h.1 (by decide)⟩
  exact ⟨fun hany ↦ (hinverse.mp hany).2.2 ⟨rfl, _, hlength⟩, result, hresult,
    (hroot result hresult).2.2⟩

end Quantity

end Metrology
