import Metrology.Proofs.Numeric.Rounding
import Metrology.Proofs.Vocabulary.HiddenReadings

/-!
# Scales that pass as the same

Two scales are the same when their difference is at most `1e-12` times the larger one, where both
the difference and the product are rounded. Rounding lets no larger difference pass. Scales that are
far from the same have a rounded difference that is too large, and the difference of the others is
exact (`SameScale.value_sub`). It is a multiple of half the last place of the larger scale, while
the product is off by less, so what is at most the rounded product is at most the exact one
(`le_div_of_le_mul`). Only where the product has fewer bits than other doubles may the difference be
larger by half of the least double (`SameScale.withinTolerance`).

Infinity passes as the same as every scale, since its difference to them is at most itself
(`sameScale_of_isInf`). So a unit may hide a reading whose scale overflows.
-/

set_option autoImplicit false
set_option relaxedAutoImplicit false

namespace Metrology

open Real64 Float.Model

/-! ### The tolerance -/

theorem isFinite_tolerance : Float.isFinite 1e-12 := rfl

theorem value_tolerance : value 1e-12 = 4951760157141521 / 2 ^ 92 := by
  have hunpack : (1e-12 : Float).toModel.unpack =
      .finite .positive 4951760157141521 (-92) (by decide) := rfl
  rw [value, hunpack, rational, signed]
  norm_num

theorem le_tolerance : 1 / 2 ^ 40 ≤ value 1e-12 := by
  rw [value_tolerance]
  norm_num

theorem tolerance_le : value 1e-12 ≤ 1 / 10 ^ 12 := by
  rw [value_tolerance]
  norm_num

theorem product_nonneg {magnitude : ℚ} (hnonneg : 0 ≤ magnitude) :
    0 ≤ value 1e-12 * magnitude :=
  mul_nonneg (le_trans (by norm_num) le_tolerance) hnonneg

theorem product_le {magnitude : ℚ} (hnonneg : 0 ≤ magnitude) :
    value 1e-12 * magnitude ≤ magnitude / 10 ^ 12 := by
  rw [div_eq_inv_mul, ← one_div]
  exact mul_le_mul_of_nonneg_right tolerance_le hnonneg

/-! ### Rounding lets no larger difference pass -/

/-- Two numbers differ by at most `1e-12` times the larger one. They may differ by half of the least
double more when they are so small that this product has fewer bits than other doubles. -/
def WithinTolerance (first second : ℚ) : Prop :=
  |first - second| ≤ max first second / 10 ^ 12 ∨
    max first second < 2 ^ 92 * least ∧
      |first - second| ≤ max first second / 10 ^ 12 + least / 2

/-- A finite double that is not negative. -/
structure IsMagnitude (number : Float) : Prop where
  isFinite : number.isFinite
  nonneg : 0 ≤ value number

/-- A double that is at least half of another one has a last place of at least half of its. -/
theorem sub_one_le_lastPlace {number other : UnpackedFloat} (hnumber : Regular number)
    (hother : Regular other) (hnormal : lastPlace number ≠ -1074)
    (hhalf : |rational number| ≤ 2 * |rational other|) :
    lastPlace number - 1 ≤ lastPlace other := by
  by_contra hfar
  have hplaces : (2 : ℚ) ^ 53 * 2 ^ lastPlace other ≤ 2 ^ 51 * 2 ^ lastPlace number := by
    rw [two_pow_mul_zpow, two_pow_mul_zpow]
    exact zpow_le_zpow_right₀ one_le_two (by omega)
  linarith [hother.abs_lt, hnumber.le_abs hnormal]

/-- What is at most `1e-12` times a double up to rounding is so exactly, for the difference to
another double: it is a multiple of half the last place. -/
theorem le_div_of_le_mul {number other : UnpackedFloat} (hnumber : Regular number)
    (hother : Regular other) (hle : rational other ≤ rational number)
    (hnonneg : 0 ≤ rational other) (hlarge : 2 ^ 53 * least ≤ rational number)
    (hclose : rational number - rational other ≤ rational number / 10 ^ 12 * (1 + 1 / 2 ^ 53)) :
    rational number - rational other ≤ rational number / 10 ^ 12 := by
  have hbits := hnumber.abs_lt
  rw [abs_of_nonneg (hnonneg.trans hle)] at hbits
  have hnormal : lastPlace number ≠ -1074 := fun hmin ↦ by
    rw [hmin] at hbits
    exact hlarge.not_gt hbits
  have hplaces : lastPlace number - 1 ≤ lastPlace other := by
    refine sub_one_le_lastPlace hnumber hother hnormal ?_
    rw [abs_of_nonneg (hnonneg.trans hle), abs_of_nonneg hnonneg]
    linarith
  obtain ⟨multiple, hmultiple⟩ := hnumber.exists_multiple (le_refl (lastPlace number))
  obtain ⟨multiple', hmultiple'⟩ := hother.exists_multiple hplaces
  have hdouble : (2 : ℚ) ^ lastPlace number = 2 * 2 ^ (lastPlace number - 1) := by
    rw [mul_comm, ← zpow_add_one₀ two_ne_zero, sub_add_cancel]
  rw [hdouble] at hbits hmultiple
  have hhalf : (0 : ℚ) < 2 ^ (lastPlace number - 1) := by positivity
  generalize (2 : ℚ) ^ (lastPlace number - 1) = half at *
  rw [hmultiple, hmultiple'] at hclose ⊢
  rw [hmultiple] at hbits
  -- Counted in halves of the last place, the difference to be excluded is an even number and at
  -- least two larger than the number, which has no more than 54 bits.
  have hless : (10 ^ 12 * (2 * multiple - multiple') : ℚ) * half < (2 * multiple + 2) * half := by
    linarith
  have hless' : (10 ^ 12 * (2 * multiple - multiple') : ℚ) < 2 * multiple + 2 :=
    lt_of_mul_lt_mul_right hless hhalf.le
  have hle' : (10 ^ 12 * (2 * multiple - multiple') : ℚ) ≤ 2 * multiple := by
    norm_cast at hless' ⊢
    omega
  have hle'' := mul_le_mul_of_nonneg_right hle' hhalf.le
  linarith

section SameScale

variable {first second : Float}

/-- Both sides of the comparison of two magnitudes are finite doubles. -/
theorem SameScale.exists_near (hfirst : IsMagnitude first) (hsecond : IsMagnitude second)
    (hsame : SameScale first second) :
    (first - second).isFinite ∧ Near (value (first - second)) (value first - value second) ∧
      ∃ bound, Near bound (value 1e-12 * max (value first) (value second)) ∧
        |value (first - second)| ≤ bound := by
  have hmax : max (value first) (value second) ≤ maximum :=
    max_le ((le_abs_self _).trans (abs_value_le first))
      ((le_abs_self _).trans (abs_value_le second))
  have hnonneg : 0 ≤ max (value first) (value second) := le_max_of_le_left hfirst.nonneg
  have hdifference : |value first - value second| ≤ max (value first) (value second) :=
    abs_sub_le_of_nonneg_of_le hfirst.nonneg (le_max_left ..) hsecond.nonneg (le_max_right ..)
  have hproduct : |value 1e-12 * max (value first) (value second)| ≤ maximum := by
    rw [abs_of_nonneg (product_nonneg hnonneg)]
    linarith [product_le hnonneg]
  obtain ⟨hfinite, habs⟩ := abs_spec hfirst.isFinite
  obtain ⟨hfinite', habs'⟩ := abs_spec hsecond.isFinite
  obtain ⟨hlarger, hvalue⟩ := larger_spec hfinite hfinite'
  rw [habs, habs', abs_of_nonneg hfirst.nonneg, abs_of_nonneg hsecond.nonneg] at hvalue
  rcases rounds_sub hfirst.isFinite hsecond.isFinite with ⟨hsub, hnear⟩ | ⟨_, hlarge⟩
  · rcases rounds_mul isFinite_tolerance hlarger with ⟨hmul, hnear'⟩ | ⟨_, hlarge⟩
    · obtain ⟨hdistance, hvalue'⟩ := abs_spec hsub
      exact ⟨hsub, hnear, _, hvalue ▸ hnear', hvalue' ▸ (le_iff hdistance hmul).mp hsame⟩
    · rw [hvalue] at hlarge
      exact absurd hproduct hlarge.not_ge
  · exact absurd (hdifference.trans hmax) hlarge.not_ge

/-- The difference of magnitudes that pass as the same is exact. -/
theorem SameScale.value_sub (hfirst : IsMagnitude first) (hsecond : IsMagnitude second)
    (hsame : SameScale first second) :
    value (first - second) = value first - value second := by
  obtain ⟨hfinite, hnear, bound, hbound, hle⟩ := hsame.exists_near hfirst hsecond
  by_cases hsmall : |value first - value second| < 2 ^ 53 * least
  · exact value_sub_of_lt_least hfirst.isFinite hsecond.isFinite hfinite hsmall
  by_cases hclose : |value first - value second| ≤ min (value first) (value second)
  · refine value_sub_of_le hfirst.isFinite hsecond.isFinite hfinite ?_ ?_
    · rw [abs_of_nonneg hfirst.nonneg]
      exact hclose.trans (min_le_left ..)
    · rw [abs_of_nonneg hsecond.nonneg]
      exact hclose.trans (min_le_right ..)
  -- Now the larger one is less than twice the difference, which is far from passing.
  exfalso
  have hmax := max_sub_min_eq_abs' (value first) (value second)
  have hmagnitude : 0 ≤ max (value first) (value second) := le_max_of_le_left hfirst.nonneg
  have hproduct := product_le hmagnitude
  have hproduct' := product_nonneg hmagnitude
  have hleast : 0 < least := zpow_pos two_pos _
  generalize hdistance : |value first - value second| = distance at *
  have hlower : |value (first - second) - (value first - value second)| ≤ distance / 2 ^ 53 :=
    hnear.abs_sub_le_of_le (by linarith) (by linarith)
  have hupper : |bound - value 1e-12 * max (value first) (value second)| ≤ distance / 2 ^ 53 :=
    hbound.abs_sub_le_of_le (by linarith) (by rw [abs_of_nonneg hproduct']; linarith)
  have htriangle := abs_sub_abs_le_abs_sub (value first - value second) (value (first - second))
  rw [hdistance, abs_sub_comm] at htriangle
  linarith [(abs_le.mp hupper).2]

theorem IsMagnitude.abs_sub_le_div (hfirst : IsMagnitude first) (hsecond : IsMagnitude second)
    (hlarge : 2 ^ 53 * least ≤ max (value first) (value second))
    (hclose : |value first - value second| ≤
      max (value first) (value second) / 10 ^ 12 * (1 + 1 / 2 ^ 53)) :
    |value first - value second| ≤ max (value first) (value second) / 10 ^ 12 := by
  have hregular := regular_of_isFinite hfirst.isFinite
  have hregular' := regular_of_isFinite hsecond.isFinite
  rcases le_total (value second) (value first) with hle | hle
  · rw [max_eq_left hle, abs_of_nonneg (sub_nonneg.mpr hle)] at *
    exact le_div_of_le_mul hregular hregular' hle hsecond.nonneg hlarge hclose
  · rw [max_eq_right hle, abs_sub_comm, abs_of_nonneg (sub_nonneg.mpr hle)] at *
    exact le_div_of_le_mul hregular' hregular hle hfirst.nonneg hlarge hclose

/-- Magnitudes that pass as the same are within the tolerance. -/
theorem SameScale.withinTolerance (hfirst : IsMagnitude first) (hsecond : IsMagnitude second)
    (hsame : SameScale first second) : WithinTolerance (value first) (value second) := by
  obtain ⟨_, _, bound, hbound, hle⟩ := hsame.exists_near hfirst hsecond
  rw [hsame.value_sub hfirst hsecond] at hle
  have hmagnitude : 0 ≤ max (value first) (value second) := le_max_of_le_left hfirst.nonneg
  have hproduct := product_le hmagnitude
  have hproduct' := product_nonneg hmagnitude
  have hproduct'' := mul_le_mul_of_nonneg_right le_tolerance hmagnitude
  have hoff := (abs_le.mp hbound.abs_sub_le).2
  rw [abs_of_nonneg hproduct'] at hoff
  rcases lt_or_ge (value 1e-12 * max (value first) (value second) / 2 ^ 53) (least / 2) with
    hsubnormal | hnormal
  · rw [max_eq_left hsubnormal.le] at hoff
    exact .inr ⟨by linarith, by linarith⟩
  · rw [max_eq_right hnormal] at hoff
    refine .inl (hfirst.abs_sub_le_div hsecond ?_ ?_) <;> linarith

end SameScale

/-- Two doubles of a few bits pass that differ by the least double, which is more than `1e-12` times
the larger one. -/
example : SameScale (Float.ofBits 600000000000) (Float.ofBits 600000000001) := by decide +kernel

/-! ### Overflow -/

/-- Infinity passes as the same as every finite double. -/
theorem sameScale_of_isInf {first second : Float} (hfirst : first.isInf)
    (hsecond : second.isFinite) : SameScale first second := by
  obtain ⟨sign, hunpack⟩ := unpack_of_isInf hfirst
  have habs := unpack_abs_of_infinity hunpack
  have hdifference : (first - second).toModel.unpack = .infinity sign := by
    show (Float.Model.pack (UnpackedFloat.sub _ first.toModel.unpack _)).unpack = _
    rw [hunpack, sub_infinity sign (regular_of_isFinite hsecond)]
    exact unpack_pack_infinity sign
  have hlarger : larger first.abs second.abs = first.abs := by
    rw [larger, if_neg]
    rw [lt_iff_compare, habs, compare_infinity (regular_of_isFinite (abs_spec hsecond).1)]
    decide
  have hproduct : (1e-12 * first.abs).toModel.unpack = .infinity .positive := by
    show (Float.Model.pack (UnpackedFloat.mul _ _ first.abs.toModel.unpack)).unpack = _
    rw [habs]
    exact unpack_pack_infinity .positive
  rw [SameScale, hlarger, le_iff_compare, unpack_abs_of_infinity hdifference, hproduct]
  rfl

theorem value_pos_of_validScale {scale : Float} (hvalid : ValidScale scale) : 0 < value scale :=
  (lt_iff rfl hvalid.1).mp hvalid.2

/-- The product of two scales is not negative, and it is finite unless it overflows. -/
theorem mul_cases {first second : Float} (hfirst : ValidScale first) (hsecond : ValidScale second) :
    (first * second).isInf ∨ IsMagnitude (first * second) := by
  rcases rounds_mul hfirst.1 hsecond.1 with ⟨hfinite, hnear⟩ | ⟨hinfinite, _⟩
  · have hpositive := mul_pos (value_pos_of_validScale hfirst) (value_pos_of_validScale hsecond)
    exact .inr ⟨hfinite, nonneg_of_mul_nonneg_left hnear.mul_nonneg hpositive⟩
  · exact .inl hinfinite

namespace Vocabulary

/-- Every split of a unit symbol whose scales overflow together passes as having the scale of the
unit, whatever that is. When the vocabulary builds, every other split of a symbol that is not
acknowledged has the scale of the unit within the tolerance. -/
theorem Reachable.split_scale_spec {vocabulary : Vocabulary} (hreachable : vocabulary.Reachable)
    {symbol : Text} {entry second : UnitEntry} {first : PrefixEntry}
    (hfind : vocabulary.findUnit symbol = some entry)
    (hsplits : vocabulary.Splits symbol first second) :
    ((first.scale * second.scale).isInf → SameScale (first.scale * second.scale) entry.scale) ∧
      ∀ result, vocabulary.build = .ok result → ¬ vocabulary.Acknowledges symbol →
        ¬ (first.scale * second.scale).isInf →
        (first.scale * second.scale).isFinite ∧
          WithinTolerance (value (first.scale * second.scale)) (value entry.scale) := by
  have hvocabulary := hreachable.wellFormed
  have hentry := (hvocabulary.unit_valid symbol entry hfind).2.2
  have hfirst := (hvocabulary.prefix_valid _ first hsplits.findPrefix_eq).2.2
  have hsecond := (hvocabulary.unit_valid _ second hsplits.findUnit_eq).2.2
  refine ⟨fun hinfinite ↦ sameScale_of_isInf hinfinite hentry.1,
    fun result hbuild hacknowledged hfits ↦ ?_⟩
  have hproduct := (mul_cases hfirst hsecond).resolve_left hfits
  have hsame : SameScale (first.scale * second.scale) entry.scale := by
    by_contra hother
    exact (hvocabulary.build_eq_ok_iff.mp hbuild).1 symbol
      ⟨entry, first, second, hfind, hacknowledged, hsplits, .inr hother⟩
  have hmagnitude : IsMagnitude entry.scale := ⟨hentry.1, (value_pos_of_validScale hentry).le⟩
  exact ⟨hproduct.isFinite, hsame.withinTolerance hproduct hmagnitude⟩

/-- The metre, the prefix kilo, and a unit of its own for the kilometre. -/
def lengths (kilo metre kilometre : Float) : Vocabulary :=
  (empty.declareAll
    [.prefixEntry ⟨utf8 "k", kilo, utf8 "kilo"⟩,
      .unitEntry ⟨utf8 "m", metre, SI.Kind.length, utf8 "metre", []⟩,
      .unitEntry ⟨utf8 "km", kilometre, SI.Kind.length, utf8 "kilometre", []⟩]).1

theorem reachable_lengths (kilo metre kilometre : Float) :
    (lengths kilo metre kilometre).Reachable :=
  evolves_declareAll _ _

theorem split_scale_spec_kilometre :
    ∃ entry first second, (lengths 1000.0 1.0 1000.0).Reachable ∧
      (lengths 1000.0 1.0 1000.0).findUnit (utf8 "km") = some entry ∧
      (lengths 1000.0 1.0 1000.0).Splits (utf8 "km") first second ∧
      (∃ result, (lengths 1000.0 1.0 1000.0).build = .ok result) ∧
      ¬ (lengths 1000.0 1.0 1000.0).Acknowledges (utf8 "km") ∧
      ¬ (first.scale * second.scale).isInf ∧
      WithinTolerance (value (first.scale * second.scale)) (value entry.scale) := by
  have hfind : (lengths 1000.0 1.0 1000.0).findUnit (utf8 "km") =
      some ⟨utf8 "km", 1000.0, SI.Kind.length, utf8 "kilometre", []⟩ := rfl
  have hsplits : (lengths 1000.0 1.0 1000.0).Splits (utf8 "km")
      ⟨utf8 "k", 1000.0, utf8 "kilo"⟩ ⟨utf8 "m", 1.0, SI.Kind.length, utf8 "metre", []⟩ :=
    ⟨rfl, rfl, rfl⟩
  have hbuild : (lengths 1000.0 1.0 1000.0).build = .ok (lengths 1000.0 1.0 1000.0) := rfl
  have hacknowledged : ¬ (lengths 1000.0 1.0 1000.0).Acknowledges (utf8 "km") := by decide
  have hfits : ¬ ((1000.0 : Float) * 1.0).isInf := by decide
  have hreachable := reachable_lengths 1000.0 1.0 1000.0
  have hspec := Reachable.split_scale_spec hreachable hfind hsplits
  exact ⟨_, _, _, hreachable, hfind, hsplits, ⟨_, hbuild⟩, hacknowledged, hfits,
    (hspec.2 _ hbuild hacknowledged hfits).2⟩

/-- A kilometre of scale one builds, though the scales of kilo and the metre overflow together. -/
theorem build_overflowing_kilometre :
    ∃ entry first second, (lengths 1e300 1e300 1.0).Reachable ∧
      (∃ result, (lengths 1e300 1e300 1.0).build = .ok result) ∧
      (lengths 1e300 1e300 1.0).findUnit (utf8 "km") = some entry ∧
      (lengths 1e300 1e300 1.0).Splits (utf8 "km") first second ∧
      ¬ (lengths 1e300 1e300 1.0).Acknowledges (utf8 "km") ∧
      ¬ (first.scale * second.scale).isFinite :=
  ⟨⟨utf8 "km", 1.0, SI.Kind.length, utf8 "kilometre", []⟩, ⟨utf8 "k", 1e300, utf8 "kilo"⟩,
    ⟨utf8 "m", 1e300, SI.Kind.length, utf8 "metre", []⟩, reachable_lengths 1e300 1e300 1.0,
    ⟨lengths 1e300 1e300 1.0, by decide +kernel⟩, by decide +kernel,
    ⟨by decide +kernel, by decide +kernel, by decide +kernel⟩, by decide +kernel,
    by decide +kernel⟩

end Vocabulary

end Metrology
