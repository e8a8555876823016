import Metrology.Dimension.Algebra
import Metrology.Dimension.Text

/-!
# Exponents are exact integers

Every way to make a dimension is described by the exponents it should have, as integers without a
range: the result has exactly these exponents and stores those that are not zero (`Stores`), or one
of them is out of range and the first such exponent in byte order is reported
(`ofExponents_eq_error_iff`). The products and sums on the way there fit into 64 bits, so that
computing them in that width is exact (`inWideRange_mul`, `inWideRange_add_mul`).
-/

set_option autoImplicit false
set_option relaxedAutoImplicit false

namespace Metrology

/-- Exponents are computed as 64-bit signed integers. -/
abbrev InWideRange (number : Int) : Prop :=
  -9223372036854775808 ≤ number ∧ number ≤ 9223372036854775807

theorem natAbs_mul_le {first second : Int} (hfirst : InExponentRange first)
    (hsecond : InExponentRange second) : (first * second).natAbs ≤ 2147483648 * 2147483648 := by
  rw [Int.natAbs_mul]
  exact Nat.mul_le_mul (by omega) (by omega)

theorem inWideRange_mul {first second : Int} (hfirst : InExponentRange first)
    (hsecond : InExponentRange second) : InWideRange (first * second) := by
  have hproduct := natAbs_mul_le hfirst hsecond
  omega

theorem inWideRange_add_mul {start first second : Int} (hstart : InExponentRange start)
    (hfirst : InExponentRange first) (hsecond : InExponentRange second) :
    InWideRange (start + first * second) := by
  have hproduct := natAbs_mul_le hfirst hsecond
  omega

namespace Dimension

/-! ### What is stored -/

/-- A dimension has given exponents, and its entries are those of them that are not zero. -/
structure Stores (dimension : Dimension) (exponent : Text → Int) : Prop where
  exponent_eq : ∀ identifier, dimension.exponent identifier = exponent identifier
  mem_entries_iff : ∀ entry, entry ∈ dimension.entries ↔
    entry.2 = exponent entry.1 ∧ entry.2 ≠ 0

/-- What is stored follows from the exponents. -/
theorem stores_iff {dimension : Dimension} {exponent : Text → Int} :
    dimension.Stores exponent ↔
      ∀ identifier, dimension.exponent identifier = exponent identifier := by
  refine ⟨Stores.exponent_eq, fun hexponent ↦ ⟨hexponent, fun entry ↦ ?_⟩⟩
  rw [mem_entries_iff, hexponent, eq_comm]

/-! ### What is refused -/

/-- An exponent is out of range, and none of an identifier before it in byte order is. -/
structure LeavesRangeAt (exponent : Text → Int) (identifier : Text) : Prop where
  outOfRange : ¬ InExponentRange (exponent identifier)
  inRange_of_lt : ∀ other, other < identifier → InExponentRange (exponent other)

theorem LeavesRangeAt.unique {exponent : Text → Int} {identifier other : Text}
    (hleaves : LeavesRangeAt exponent identifier) (hother : LeavesRangeAt exponent other) :
    identifier = other := by
  rcases Text.lt_or_eq_or_gt identifier other with hlt | heq | hgt
  · exact absurd (hother.inRange_of_lt _ hlt) hleaves.outOfRange
  · exact heq
  · exact absurd (hleaves.inRange_of_lt _ hgt) hother.outOfRange

section

variable {identifiers : List Text} {exponent : Text → Int}
  (habsent : ∀ identifier, identifier ∉ identifiers → exponent identifier = 0)

include habsent

theorem leavesRangeAt_of_firstOutOfRange? {identifier : Text}
    (hfirst : firstOutOfRange? identifiers exponent = some identifier) :
    LeavesRangeAt exponent identifier := by
  obtain ⟨houtside, before, after, hsplit, hbefore⟩ := List.find?_eq_some_iff_append.mp hfirst
  refine ⟨of_decide_eq_true houtside, fun other hlt ↦ ?_⟩
  by_cases hmem : other ∈ identifiers
  · have hincreasing := Text.pairwise_sortedSet identifiers
    rw [← Text.mem_sortedSet, hsplit, List.mem_append, List.mem_cons] at hmem
    rw [hsplit] at hincreasing
    have hbehind := (List.pairwise_cons.mp (List.pairwise_append.mp hincreasing).2.1).1
    rcases hmem with hin | rfl | hin
    · simpa using hbefore other hin
    · exact absurd hlt (List.lt_irrefl _)
    · exact absurd (List.lt_trans hlt (hbehind other hin)) (List.lt_irrefl _)
  · rw [habsent other hmem]
    decide

/-- The first exponent out of range in byte order is reported, with its exact value. -/
theorem ofExponents_eq_error_iff {error : DimensionError} :
    ofExponents identifiers exponent = .error error ↔
      ∃ identifier, LeavesRangeAt exponent identifier ∧
        error = .exponentOutOfRange (exponent identifier) identifier := by
  have hreports : ∀ error, ofExponents identifiers exponent = .error error →
      ∃ identifier, LeavesRangeAt exponent identifier ∧
        error = .exponentOutOfRange (exponent identifier) identifier := by
    intro error hfailed
    unfold ofExponents at hfailed
    split at hfailed
    · next identifier hfirst =>
      cases hfailed
      exact ⟨identifier, leavesRangeAt_of_firstOutOfRange? habsent hfirst, rfl⟩
    · cases hfailed
  refine ⟨hreports error, ?_⟩
  rintro ⟨identifier, hleaves, rfl⟩
  cases hresult : ofExponents identifiers exponent with
  | ok dimension =>
    have hall := (exists_ofExponents_eq_ok_iff habsent).mp ⟨dimension, hresult⟩
    exact absurd (hall identifier) hleaves.outOfRange
  | error other =>
    obtain ⟨found, hfound, rfl⟩ := hreports other hresult
    rw [hleaves.unique hfound]

/-- Exponents are made into a dimension that stores them. When one of them is out of range, the
first such one is reported instead. -/
structure Computes (result : Except DimensionError Dimension) (exponent : Text → Int) : Prop where
  fails_iff : (∃ error, result = .error error) ↔
    ∃ identifier, ¬ InExponentRange (exponent identifier)
  reports : ∀ error, result = .error error → ∃ identifier, LeavesRangeAt exponent identifier ∧
    error = .exponentOutOfRange (exponent identifier) identifier
  stores : ∀ dimension, result = .ok dimension → dimension.Stores exponent

theorem computes_ofExponents : Computes (ofExponents identifiers exponent) exponent where
  fails_iff := by
    rw [← Classical.not_forall, ← exists_ofExponents_eq_ok_iff habsent]
    cases ofExponents identifiers exponent <;> simp
  reports _ := (ofExponents_eq_error_iff habsent).mp
  stores _ hresult := stores_iff.mpr ((ofExponents_eq_ok_iff_of_absent habsent).mp hresult)

end

/-! ### Constructors and operations -/

theorem computes_combine (first second : Dimension) (power : Int) :
    Computes (combine first second power) fun identifier ↦
      first.exponent identifier + power * second.exponent identifier :=
  computes_ofExponents fun _ ↦ exponent_combine_of_absent

theorem computes_power (dimension : Dimension) (exponent : Int) :
    Computes (dimension.power exponent) fun identifier ↦
      exponent * dimension.exponent identifier :=
  computes_ofExponents fun _ ↦ exponent_power_of_absent

/-- Of a repeated identifier the first entry counts. -/
theorem computes_ofEntries (entries : List (Text × Int)) :
    Computes (ofEntries entries) fun identifier ↦ (entries.lookup identifier).getD 0 := by
  refine computes_ofExponents fun identifier habsent ↦ ?_
  have hnone : entries.lookup identifier = none := by
    rw [List.lookup_eq_none_iff]
    intro entry hentry
    rw [bne_iff_ne]
    rintro rfl
    exact habsent (List.mem_map_of_mem hentry)
  rw [hnone, Option.getD_none]

theorem exists_base {identifier : Text} (hidentifier : identifier ≠ []) :
    ∃ dimension, base identifier = .ok dimension ∧
      dimension.Stores fun other ↦ if other = identifier then 1 else 0 := by
  obtain ⟨dimension, hdimension⟩ : ∃ dimension, base identifier = .ok dimension :=
    ⟨_, if_neg hidentifier⟩
  refine ⟨dimension, hdimension, stores_iff.mpr fun other ↦ ?_⟩
  rw [base, if_neg hidentifier] at hdimension
  simpa only [List.mem_singleton] using (ofExponents_eq_ok_iff.mp hdimension).2 other

theorem stores_of_root {dimension result : Dimension} {order : Int}
    (hroot : dimension.root order = .ok result) :
    result.Stores fun identifier ↦ dimension.exponent identifier / order := by
  obtain ⟨horder, hexponent⟩ := root_eq_ok_iff.mp hroot
  refine stores_iff.mpr fun identifier ↦ ?_
  rw [hexponent, Int.mul_ediv_cancel_left _ horder]

/-- For all dimensions and all powers in the range of exponents. The first dimension times a power
of the second, and a power of the first, fail exactly when an exponent of the exact result is out of
range; else every exponent is exact. All numbers on the way fit into 64 bits. Whatever way a
dimension is made, it stores the exponents that are not zero and no others, so that dimensions with
the same entries are those with the same exponents. -/
theorem exponents_spec (first second : Dimension) {power exponent : Int}
    (hpower : InExponentRange power) (hexponent : InExponentRange exponent) :
    (Computes (combine first second power) fun identifier ↦
        first.exponent identifier + power * second.exponent identifier) ∧
      (Computes (first.power exponent) fun identifier ↦ exponent * first.exponent identifier) ∧
      (∀ identifier, InWideRange (power * second.exponent identifier) ∧
        InWideRange (first.exponent identifier + power * second.exponent identifier) ∧
        InWideRange (exponent * first.exponent identifier)) ∧
      (Computes (first.product second) fun identifier ↦
        first.exponent identifier + second.exponent identifier) ∧
      (Computes (first.quotient second) fun identifier ↦
        first.exponent identifier - second.exponent identifier) ∧
      (∀ order result, first.root order = .ok result →
        result.Stores fun identifier ↦ first.exponent identifier / order) ∧
      (∀ entries : List (Text × Int), Computes (ofEntries entries) fun identifier ↦
        (entries.lookup identifier).getD 0) ∧
      (∀ identifier, identifier ≠ [] → ∃ result, base identifier = .ok result ∧
        result.Stores fun other ↦ if other = identifier then 1 else 0) ∧
      one.Stores (fun _ ↦ 0) ∧
      (first.entries = second.entries ↔
        ∀ identifier, first.exponent identifier = second.exponent identifier) := by
  have hproduct := computes_combine first second 1
  have hquotient := computes_combine first second (-1)
  simp only [Int.one_mul] at hproduct
  simp only [Int.neg_one_mul, ← Int.sub_eq_add_neg] at hquotient
  refine ⟨computes_combine first second power, computes_power first exponent, fun identifier ↦ ?_,
    hproduct, hquotient, fun order result ↦ stores_of_root, computes_ofEntries,
    fun identifier ↦ exists_base, stores_iff.mpr exponent_one, ?_⟩
  · have hfirst := first.inExponentRange_exponent identifier
    have hsecond := second.inExponentRange_exponent identifier
    exact ⟨inWideRange_mul hpower hsecond, inWideRange_add_mul hfirst hpower hsecond,
      inWideRange_mul hexponent hfirst⟩
  · constructor
    · intro hentries identifier
      rw [Dimension.exponent, hentries, Dimension.exponent]
    · intro hexponents
      rw [ext_exponent hexponents]

/-- The dimension with the least exponent there is. -/
def lowest : Dimension where
  entries := [(BaseDimension.length, -2147483648)]

/-- The least exponent cannot be inverted, and cancels against itself. -/
theorem exponents_spec_lowest :
    InExponentRange (-1) ∧ (∃ error, lowest.power (-1) = .error error) ∧
      ∃ result, combine lowest lowest (-1) = .ok result ∧ result.Stores fun _ ↦ 0 := by
  have hinverse : InExponentRange (-1) := by decide
  obtain ⟨hcancel, hpower, -⟩ := exponents_spec lowest lowest hinverse hinverse
  have hzero : (fun identifier ↦ lowest.exponent identifier + -1 * lowest.exponent identifier) =
      fun _ ↦ 0 := by
    funext identifier
    omega
  rw [hzero] at hcancel
  refine ⟨hinverse, hpower.fails_iff.mpr ⟨BaseDimension.length, by decide⟩, ?_⟩
  cases hresult : combine lowest lowest (-1) with
  | ok result => exact ⟨result, rfl, hcancel.stores result hresult⟩
  | error error =>
    obtain ⟨_, houtside⟩ := hcancel.fails_iff.mp ⟨error, hresult⟩
    exact absurd (by decide) houtside

end Dimension

end Metrology
