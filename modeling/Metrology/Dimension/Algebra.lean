import Metrology.Dimension.Error

/-!
# The algebra of dimensions

Products, quotients, powers and roots act on exponents as exact integers and fail when one of them
leaves the range of exponents. All are built by `ofExponents`. `combine_eq_ok_iff`,
`power_eq_ok_iff` and `root_eq_ok_iff` characterise the results by their exponents alone: since the
exponents of a dimension are in range, a result exists only where the exact exponents are.
-/

set_option autoImplicit false
set_option relaxedAutoImplicit false

namespace Metrology.Dimension

/-- The first identifier in byte order whose exponent is out of range. -/
def firstOutOfRange? (identifiers : List Text) (exponent : Text → Int) : Option Text :=
  (Text.sortedSet identifiers).find? fun identifier ↦ ¬ InExponentRange (exponent identifier)

/-- The entries of the identifiers whose exponent is not zero, in byte order. -/
def nonzeroEntries (identifiers : List Text) (exponent : Text → Int) : List (Text × Int) :=
  ((Text.sortedSet identifiers).filter fun identifier ↦ exponent identifier ≠ 0).map
    fun identifier ↦ (identifier, exponent identifier)

/-- The dimension with given exponents at given identifiers and zero elsewhere. -/
def ofExponents (identifiers : List Text) (exponent : Text → Int) :
    Except DimensionError Dimension :=
  match hfirst : firstOutOfRange? identifiers exponent with
  | some identifier => .error (.exponentOutOfRange (exponent identifier) identifier)
  | none => .ok
    { entries := nonzeroEntries identifiers exponent
      increasing := by
        rw [nonzeroEntries, List.map_map]
        refine List.Pairwise.sublist ?_ (Text.pairwise_sortedSet identifiers)
        exact List.map_id'' (fun _ ↦ rfl) _ ▸ List.filter_sublist
      nonzero := by
        intro entry hentry
        obtain ⟨identifier, hidentifier, rfl⟩ := List.mem_map.mp hentry
        simpa using (List.mem_filter.mp hidentifier).2
      inRange := by
        intro entry hentry
        obtain ⟨identifier, hidentifier, rfl⟩ := List.mem_map.mp hentry
        have hin := List.find?_eq_none.mp hfirst identifier (List.mem_filter.mp hidentifier).1
        simpa using hin }

/-- Exponents are given exactly: the construction succeeds when all of them are in range, and then
every exponent is as given. -/
theorem ofExponents_eq_ok_iff {identifiers : List Text} {exponent : Text → Int}
    {dimension : Dimension} : ofExponents identifiers exponent = .ok dimension ↔
      (∀ identifier ∈ identifiers, InExponentRange (exponent identifier)) ∧
        ∀ identifier, dimension.exponent identifier =
          if identifier ∈ identifiers then exponent identifier else 0 := by
  have hrange : firstOutOfRange? identifiers exponent = none ↔
      ∀ identifier ∈ identifiers, InExponentRange (exponent identifier) := by
    simp [firstOutOfRange?, List.find?_eq_none]
  have hvalue : ∀ result : Dimension, result.entries = nonzeroEntries identifiers exponent →
      ∀ identifier, result.exponent identifier =
        if identifier ∈ identifiers then exponent identifier else 0 := by
    intro result hentries identifier
    by_cases hmem : identifier ∈ identifiers ∧ exponent identifier ≠ 0
    · rw [if_pos hmem.1]
      refine exponent_of_mem ?_
      rw [hentries, nonzeroEntries]
      exact List.mem_map.mpr ⟨identifier, by simpa using hmem, rfl⟩
    · have hzero : result.exponent identifier = 0 := by
        refine Decidable.byContradiction fun hne ↦ hmem ?_
        have hentry := mem_identifiers_iff.mpr hne
        rw [Dimension.identifiers, hentries, nonzeroEntries, List.map_map] at hentry
        obtain ⟨other, hother, rfl⟩ := List.mem_map.mp hentry
        simpa using hother
      rw [hzero]
      split
      · next hin => exact Eq.symm (Decidable.byContradiction fun hne ↦ hmem ⟨hin, hne⟩)
      · rfl
  unfold ofExponents
  split
  · next identifier hfirst =>
    constructor
    · intro h
      cases h
    · intro h
      rw [hrange.mpr h.1] at hfirst
      cases hfirst
  · next hfirst =>
    rw [Except.ok.injEq]
    constructor
    · intro h
      exact ⟨hrange.mp hfirst, hvalue _ (by rw [← h])⟩
    · intro h
      refine ext_exponent fun identifier ↦ ?_
      rw [h.2, hvalue _ rfl]

theorem ofExponents_eq_ok_iff_of_absent {identifiers : List Text} {exponent : Text → Int}
    {dimension : Dimension}
    (habsent : ∀ identifier, identifier ∉ identifiers → exponent identifier = 0) :
    ofExponents identifiers exponent = .ok dimension ↔
      ∀ identifier, dimension.exponent identifier = exponent identifier := by
  rw [ofExponents_eq_ok_iff]
  constructor
  · intro h identifier
    rw [h.2]
    split
    · rfl
    · next hnot => exact (habsent identifier hnot).symm
  · intro h
    constructor
    · intro identifier _
      rw [← h]
      exact dimension.inExponentRange_exponent identifier
    · intro identifier
      rw [h]
      split
      · rfl
      · next hnot => exact habsent identifier hnot

/-- Exponents that are all in range make a dimension. -/
theorem exists_ofExponents_eq_ok_iff {identifiers : List Text} {exponent : Text → Int}
    (habsent : ∀ identifier, identifier ∉ identifiers → exponent identifier = 0) :
    (∃ dimension, ofExponents identifiers exponent = .ok dimension) ↔
      ∀ identifier, InExponentRange (exponent identifier) := by
  constructor
  · rintro ⟨dimension, hdimension⟩ identifier
    rw [← (ofExponents_eq_ok_iff_of_absent habsent).mp hdimension]
    exact dimension.inExponentRange_exponent identifier
  · intro hrange
    unfold ofExponents
    split
    · next identifier hfirst =>
      have houtside := List.find?_some hfirst
      simp [hrange identifier] at houtside
    · exact ⟨_, rfl⟩

theorem exponent_eq_zero_of_not_mem {dimension : Dimension} {identifier : Text}
    (hnot : identifier ∉ dimension.identifiers) : dimension.exponent identifier = 0 := by
  rw [mem_identifiers_iff] at hnot
  exact Decidable.not_not.mp hnot

/-- The dimension of a list of entries. Of a repeated identifier the first entry counts. -/
def ofEntries (entries : List (Text × Int)) : Except DimensionError Dimension :=
  ofExponents (entries.map Prod.fst) fun identifier ↦ (entries.lookup identifier).getD 0

/-- A base dimension. -/
def base (identifier : Text) : Except DimensionError Dimension :=
  if identifier = [] then .error .emptyIdentifier else ofExponents [identifier] fun _ ↦ 1

/-- The first dimension times an integer power of the second. -/
def combine (first second : Dimension) (power : Int) : Except DimensionError Dimension :=
  ofExponents (first.identifiers ++ second.identifiers) fun identifier ↦
    first.exponent identifier + power * second.exponent identifier

theorem exponent_combine_of_absent {first second : Dimension} {power : Int} {identifier : Text}
    (habsent : identifier ∉ first.identifiers ++ second.identifiers) :
    first.exponent identifier + power * second.exponent identifier = 0 := by
  rw [List.mem_append, not_or] at habsent
  rw [exponent_eq_zero_of_not_mem habsent.1, exponent_eq_zero_of_not_mem habsent.2]
  simp

theorem combine_eq_ok_iff {first second result : Dimension} {power : Int} :
    combine first second power = .ok result ↔ ∀ identifier, result.exponent identifier =
      first.exponent identifier + power * second.exponent identifier :=
  ofExponents_eq_ok_iff_of_absent fun _ habsent ↦ exponent_combine_of_absent habsent

theorem exists_combine_eq_ok_iff {first second : Dimension} {power : Int} :
    (∃ result, combine first second power = .ok result) ↔ ∀ identifier, InExponentRange
      (first.exponent identifier + power * second.exponent identifier) :=
  exists_ofExponents_eq_ok_iff fun _ habsent ↦ exponent_combine_of_absent habsent

/-- The product of two dimensions. -/
def product (first second : Dimension) : Except DimensionError Dimension :=
  combine first second 1

/-- The quotient of two dimensions. -/
def quotient (first second : Dimension) : Except DimensionError Dimension :=
  combine first second (-1)

/-- An integer power of a dimension. -/
def power (dimension : Dimension) (exponent : Int) : Except DimensionError Dimension :=
  ofExponents dimension.identifiers fun identifier ↦ exponent * dimension.exponent identifier

theorem exponent_power_of_absent {dimension : Dimension} {exponent : Int} {identifier : Text}
    (habsent : identifier ∉ dimension.identifiers) :
    exponent * dimension.exponent identifier = 0 := by
  rw [exponent_eq_zero_of_not_mem habsent, Int.mul_zero]

theorem power_eq_ok_iff {dimension result : Dimension} {exponent : Int} :
    dimension.power exponent = .ok result ↔
      ∀ identifier, result.exponent identifier = exponent * dimension.exponent identifier :=
  ofExponents_eq_ok_iff_of_absent fun _ habsent ↦ exponent_power_of_absent habsent

theorem exists_power_eq_ok_iff {dimension : Dimension} {exponent : Int} :
    (∃ result, dimension.power exponent = .ok result) ↔
      ∀ identifier, InExponentRange (exponent * dimension.exponent identifier) :=
  exists_ofExponents_eq_ok_iff fun _ habsent ↦ exponent_power_of_absent habsent

/-- The root of a dimension, defined when the order divides every exponent. -/
def root (dimension : Dimension) (order : Int) : Except DimensionError Dimension :=
  if order = 0 then .error (.zerothRoot dimension)
  else
    match dimension.identifiers.find? fun identifier ↦
        dimension.exponent identifier % order ≠ 0 with
    | some identifier => .error (.indivisible order dimension identifier)
    | none =>
      ofExponents dimension.identifiers fun identifier ↦ dimension.exponent identifier / order

/-- The root of an order is the dimension whose power by that order is the given one. -/
theorem root_eq_ok_iff {dimension result : Dimension} {order : Int} :
    dimension.root order = .ok result ↔ order ≠ 0 ∧
      ∀ identifier, dimension.exponent identifier = order * result.exponent identifier := by
  unfold root
  split
  · next hzero => simp [hzero]
  · next hzero =>
    split
    · next identifier hfirst =>
      have hindivisible : dimension.exponent identifier % order ≠ 0 := by
        simpa using List.find?_some hfirst
      constructor
      · intro h
        cases h
      · intro h
        rw [h.2, Int.mul_emod_right] at hindivisible
        exact absurd rfl hindivisible
    · next hfirst =>
      have hdivisible : ∀ identifier, order ∣ dimension.exponent identifier := by
        intro identifier
        by_cases hmem : identifier ∈ dimension.identifiers
        · exact Int.dvd_of_emod_eq_zero (by simpa using List.find?_eq_none.mp hfirst _ hmem)
        · rw [exponent_eq_zero_of_not_mem hmem]
          exact Int.dvd_zero order
      rw [ofExponents_eq_ok_iff_of_absent]
      · refine ⟨fun h ↦ ⟨hzero, fun identifier ↦ ?_⟩, fun h identifier ↦ ?_⟩
        · rw [h, Int.mul_ediv_cancel' (hdivisible identifier)]
        · rw [h.2, Int.mul_ediv_cancel_left _ hzero]
      · intro identifier hnot
        rw [exponent_eq_zero_of_not_mem hnot, Int.zero_ediv]

end Metrology.Dimension
