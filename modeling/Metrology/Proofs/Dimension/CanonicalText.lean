import Mathlib.Tactic.MkIffOfInductiveProp
import Metrology.Dimension.Algebra
import Metrology.Dimension.Text
import Metrology.Proofs.Numeric.Integers
import Metrology.Proofs.Text.Splitting
import Metrology.Proofs.Text.Trimming
import Metrology.SI.Kinds

/-!
# Dimensions are told by their texts

The order of writing sorts the base dimensions by rank, and those of one rank in byte order
(`Dimension.Precedes`). No other arrangement of them is in that order
(`Dimension.eq_canonicalOrder`), so a stable sort by rank makes it too
(`Dimension.canonicalOrder_eq_mergeSort`). A text is taken apart again at its spaces, and each part
at its caret. As long as the identifiers hold neither, and none is the word for the dimension of a
plain number, the text tells the dimension (`Dimension.eq_of_toText_eq`).
-/

set_option autoImplicit false
set_option relaxedAutoImplicit false

namespace Metrology.Dimension

/-! ### The order of writing -/

/-- A base dimension is written before another. -/
def Precedes (first second : Text) : Prop :=
  canonicalRank first < canonicalRank second ∨
    canonicalRank first = canonicalRank second ∧ first < second

instance (first second : Text) : Decidable (Precedes first second) :=
  inferInstanceAs (Decidable (_ ∨ _))

theorem Precedes.asymm {first second : Text} (hfirst : Precedes first second) :
    ¬ Precedes second first := by
  rintro (hlower | ⟨hsame, hlt⟩)
  · rcases hfirst with hrank | ⟨hrank, _⟩ <;> omega
  · rcases hfirst with hrank | ⟨_, hgt⟩
    · omega
    · exact List.lt_irrefl _ (List.lt_trans hlt hgt)

theorem canonicalRank_of_not_mem {identifier : Text}
    (hcustom : identifier ∉ BaseDimension.international) :
    canonicalRank identifier = BaseDimension.international.length :=
  List.idxOf_eq_length hcustom

theorem canonicalOrder_perm (dimension : Dimension) :
    dimension.canonicalOrder.Perm dimension.identifiers :=
  (List.perm_ext_iff_of_nodup dimension.nodup_canonicalOrder dimension.nodup_identifiers).mpr
    fun _ ↦ mem_canonicalOrder

theorem pairwise_canonicalOrder (dimension : Dimension) :
    dimension.canonicalOrder.Pairwise Precedes := by
  have hinternational : BaseDimension.international.Pairwise fun first second ↦
      canonicalRank first < canonicalRank second := by decide
  have hcustom : ∀ identifier ∈ dimension.identifiers.filter (· ∉ BaseDimension.international),
      canonicalRank identifier = BaseDimension.international.length := fun identifier hmem ↦
    canonicalRank_of_not_mem (of_decide_eq_true (List.mem_filter.mp hmem).2)
  refine List.pairwise_append.mpr ⟨?_, ?_, fun first hfirst second hsecond ↦ ?_⟩
  · exact (hinternational.imp Or.inl).filter _
  · refine List.Pairwise.imp_of_mem ?_ (dimension.increasing.filter _)
    intro first second hfirst hsecond hlt
    exact .inr ⟨(hcustom first hfirst).trans (hcustom second hsecond).symm, hlt⟩
  · refine .inl ?_
    rw [hcustom second hsecond]
    exact List.idxOf_lt_length_of_mem (List.mem_filter.mp hfirst).1

/-- Only one arrangement of the base dimensions is in the order of writing. -/
theorem eq_canonicalOrder {dimension : Dimension} {order : List Text}
    (hperm : order.Perm dimension.identifiers) (horder : order.Pairwise Precedes) :
    order = dimension.canonicalOrder :=
  List.Perm.eq_of_pairwise (fun _ _ _ _ hfirst hsecond ↦ absurd hsecond hfirst.asymm) horder
    dimension.pairwise_canonicalOrder (hperm.trans dimension.canonicalOrder_perm.symm)

/-! ### The order as a stable sort -/

/-- The rank of a base dimension is not above that of another. -/
def ranksUpTo (first second : Text) : Bool :=
  canonicalRank first ≤ canonicalRank second

theorem ranksUpTo_trans (first second third : Text) (hfirst : ranksUpTo first second)
    (hsecond : ranksUpTo second third) : ranksUpTo first third :=
  decide_eq_true (Nat.le_trans (of_decide_eq_true hfirst) (of_decide_eq_true hsecond))

theorem ranksUpTo_total (first second : Text) :
    ranksUpTo first second || ranksUpTo second first := by
  simpa [ranksUpTo] using Nat.le_total (canonicalRank first) (canonicalRank second)

/-- A stable sort by rank leaves the base dimensions of one rank as they are. -/
theorem filter_mergeSort (identifiers : List Text) (rank : Nat) :
    (identifiers.mergeSort ranksUpTo).filter (canonicalRank · = rank) =
      identifiers.filter (canonicalRank · = rank) := by
  have hclass : (identifiers.filter (canonicalRank · = rank)).Pairwise (ranksUpTo · ·) := by
    refine List.pairwise_of_forall_mem_list fun first hfirst second hsecond ↦ decide_eq_true ?_
    exact Nat.le_of_eq ((of_decide_eq_true (List.mem_filter.mp hfirst).2).trans
      (of_decide_eq_true (List.mem_filter.mp hsecond).2).symm)
  have hsublist := (List.sublist_mergeSort ranksUpTo_trans ranksUpTo_total hclass
    List.filter_sublist).filter (canonicalRank · = rank)
  rw [List.filter_filter, funext fun identifier ↦ Bool.and_self _] at hsublist
  have hperm := (List.mergeSort_perm identifiers ranksUpTo).filter (canonicalRank · = rank)
  exact (hsublist.eq_of_length hperm.length_eq.symm).symm

/-- The order of writing is that of a stable sort by rank, since the identifiers of a dimension are
in byte order already. -/
theorem canonicalOrder_eq_mergeSort (dimension : Dimension) :
    dimension.canonicalOrder = dimension.identifiers.mergeSort ranksUpTo := by
  refine (eq_canonicalOrder (List.mergeSort_perm _ _) ?_).symm
  refine List.pairwise_of_forall_sublist fun {first second} hpair ↦ ?_
  have hsorted := List.pairwise_mergeSort ranksUpTo_trans ranksUpTo_total dimension.identifiers
  have hrank : canonicalRank first ≤ canonicalRank second :=
    of_decide_eq_true (List.pairwise_iff_forall_sublist.mp hsorted hpair)
  rcases Nat.lt_or_eq_of_le hrank with hlower | hsame
  · exact .inl hlower
  · have hclass := hpair.filter (canonicalRank · = canonicalRank second)
    rw [filter_mergeSort, List.filter_cons_of_pos (by simpa using hsame),
      List.filter_cons_of_pos (by simp)] at hclass
    exact .inr ⟨hsame, List.pairwise_iff_forall_sublist.mp dimension.increasing
      (hclass.trans List.filter_sublist)⟩

/-! ### Taking a text apart -/

/-- An identifier can be told in a text: it holds neither what separates base dimensions nor what
separates one from its exponent, and it is not the word for the dimension of a plain number. -/
@[mk_iff] structure IsTellable (identifier : Text) : Prop where
  blank_not_mem : 32 ∉ identifier
  caret_not_mem : 94 ∉ identifier
  ne_word : identifier ≠ utf8 "dimensionless"

instance (identifier : Text) : Decidable (IsTellable identifier) :=
  decidable_of_iff _ (isTellable_iff identifier).symm

theorem exponentSuffix_of_ne_one {exponent : Int} (hne : exponent ≠ 1) :
    exponentSuffix exponent = 94 :: Decimal.ofInt exponent :=
  if_neg hne

theorem head_exponentSuffix (exponent : Int) :
    ∀ byte ∈ (exponentSuffix exponent).head?, byte = 94 := by
  by_cases hone : exponent = 1
  · simp [exponentSuffix, hone]
  · rw [exponentSuffix_of_ne_one hone]
    simp

theorem exponentSuffix_injective {first second : Int}
    (hsuffix : exponentSuffix first = exponentSuffix second) : first = second := by
  by_cases hfirst : first = 1 <;> by_cases hsecond : second = 1
  · rw [hfirst, hsecond]
  · rw [exponentSuffix_of_ne_one hsecond, exponentSuffix, if_pos hfirst] at hsuffix
    cases hsuffix
  · rw [exponentSuffix_of_ne_one hfirst, exponentSuffix, if_pos hsecond] at hsuffix
    cases hsuffix
  · rw [exponentSuffix_of_ne_one hfirst, exponentSuffix_of_ne_one hsecond] at hsuffix
    exact Decimal.ofInt_injective (List.cons.inj hsuffix).2

theorem blank_not_mem_exponentSuffix (exponent : Int) : 32 ∉ exponentSuffix exponent := by
  by_cases hone : exponent = 1
  · simp [exponentSuffix, hone]
  · rw [exponentSuffix_of_ne_one hone]
    exact List.not_mem_cons_of_ne_of_not_mem (by decide) (Decimal.blank_not_mem_ofInt exponent)

/-- A base dimension and its exponent are told by what stands before the caret and behind it. -/
theorem append_exponentSuffix_inj {first second : Text} {exponent other : Int}
    (hfirst : 94 ∉ first) (hsecond : 94 ∉ second)
    (htext : first ++ exponentSuffix exponent = second ++ exponentSuffix other) :
    first = second ∧ exponent = other := by
  obtain ⟨hname, hrest⟩ := Text.takeWhile_append hfirst (head_exponentSuffix exponent)
  obtain ⟨hname', hrest'⟩ := Text.takeWhile_append hsecond (head_exponentSuffix other)
  rw [htext] at hname hrest
  exact ⟨hname.symm.trans hname', exponentSuffix_injective (hrest.symm.trans hrest')⟩

/-- The base dimensions of a dimension in writing, with their exponents. -/
def powerTexts (dimension : Dimension) : List Text :=
  dimension.canonicalOrder.map fun identifier ↦ dimension.powerText identifier identifier

theorem toText_of_ne_one {dimension : Dimension} (hne : dimension ≠ one) :
    dimension.toText = [32].intercalate dimension.powerTexts :=
  if_neg hne

variable {first second : Dimension}

/-- The text falls apart into the base dimensions with their exponents. -/
theorem splitOn_toText (htellable : ∀ identifier ∈ first.identifiers, IsTellable identifier)
    (hne : first ≠ one) : Text.splitOn 32 first.toText = first.powerTexts := by
  rw [toText_of_ne_one hne]
  refine Text.splitOn_intercalate_of_not_mem ?_ fun text htext hblank ↦ ?_
  · exact fun hnil ↦ hne (canonicalOrder_eq_nil_iff.mp (List.map_eq_nil_iff.mp hnil))
  · obtain ⟨identifier, hidentifier, rfl⟩ := List.mem_map.mp htext
    rcases List.mem_append.mp hblank with hname | hsuffix
    · exact (htellable identifier (mem_canonicalOrder.mp hidentifier)).blank_not_mem hname
    · exact blank_not_mem_exponentSuffix _ hsuffix

/-- No other dimension is written as the word for that of a plain number. -/
theorem toText_ne_word (htellable : ∀ identifier ∈ first.identifiers, IsTellable identifier)
    (hne : first ≠ one) : first.toText ≠ utf8 "dimensionless" := by
  intro hword
  have hsplit := splitOn_toText htellable hne
  rw [hword, Text.splitOn_of_not_mem (by decide)] at hsplit
  have hmem : utf8 "dimensionless" ∈ first.powerTexts := hsplit ▸ List.mem_singleton_self _
  obtain ⟨identifier, hidentifier, hpower⟩ := List.mem_map.mp hmem
  have hname := htellable identifier (mem_canonicalOrder.mp hidentifier)
  have hparts : identifier ++ exponentSuffix (first.exponent identifier) =
      utf8 "dimensionless" ++ exponentSuffix 1 := hpower
  exact hname.ne_word (append_exponentSuffix_inj hname.caret_not_mem (by decide) hparts).1

/-- A base dimension takes part with its exponent in every dimension with the same powers. -/
theorem exponent_eq_of_powerTexts
    (hfirst : ∀ identifier ∈ first.identifiers, IsTellable identifier)
    (hsecond : ∀ identifier ∈ second.identifiers, IsTellable identifier)
    (htexts : first.powerTexts = second.powerTexts) {identifier : Text}
    (hidentifier : identifier ∈ first.identifiers) :
    second.exponent identifier = first.exponent identifier := by
  have hmem : first.powerText identifier identifier ∈ second.powerTexts :=
    htexts ▸ List.mem_map_of_mem (mem_canonicalOrder.mpr hidentifier)
  obtain ⟨other, hother, hpower⟩ := List.mem_map.mp hmem
  obtain ⟨rfl, hexponent⟩ := append_exponentSuffix_inj
    (hsecond other (mem_canonicalOrder.mp hother)).caret_not_mem
    (hfirst identifier hidentifier).caret_not_mem hpower
  exact hexponent

/-- Dimensions whose identifiers can be told are equal when they are written alike. -/
theorem eq_of_toText_eq (hfirst : ∀ identifier ∈ first.identifiers, IsTellable identifier)
    (hsecond : ∀ identifier ∈ second.identifiers, IsTellable identifier)
    (htext : first.toText = second.toText) : first = second := by
  by_cases hone : first = one
  · by_cases hother : second = one
    · rw [hone, hother]
    · exact absurd (htext.symm.trans (if_pos hone)) (toText_ne_word hsecond hother)
  · by_cases hother : second = one
    · exact absurd (htext.trans (if_pos hother)) (toText_ne_word hfirst hone)
    · have htexts : first.powerTexts = second.powerTexts := by
        rw [← splitOn_toText hfirst hone, htext, splitOn_toText hsecond hother]
      refine ext_exponent fun identifier ↦ ?_
      by_cases hmem : identifier ∈ first.identifiers
      · exact (exponent_eq_of_powerTexts hfirst hsecond htexts hmem).symm
      · by_cases hmem' : identifier ∈ second.identifiers
        · exact exponent_eq_of_powerTexts hsecond hfirst htexts.symm hmem'
        · rw [exponent_eq_zero_of_not_mem hmem, exponent_eq_zero_of_not_mem hmem']

/-- The base dimensions in writing are those of the dimension, each once, by rank and then in byte
order; no other arrangement of them is in that order, and a stable sort by rank makes it. Two
dimensions whose identifiers can be told in a text are the same when they are written alike. -/
theorem canonicalText_spec :
    (∀ dimension : Dimension, dimension.canonicalOrder.Perm dimension.identifiers ∧
      dimension.canonicalOrder.Pairwise Precedes ∧
      (∀ order : List Text, order.Perm dimension.identifiers → order.Pairwise Precedes →
        order = dimension.canonicalOrder) ∧
      dimension.canonicalOrder = dimension.identifiers.mergeSort ranksUpTo) ∧
    ∀ first second : Dimension, (∀ identifier ∈ first.identifiers, IsTellable identifier) →
      (∀ identifier ∈ second.identifiers, IsTellable identifier) →
      first.toText = second.toText → first = second :=
  ⟨fun dimension ↦ ⟨dimension.canonicalOrder_perm, dimension.pairwise_canonicalOrder,
    fun _ hperm horder ↦ eq_canonicalOrder hperm horder, dimension.canonicalOrder_eq_mergeSort⟩,
    fun _ _ hfirst hsecond htext ↦ eq_of_toText_eq hfirst hsecond htext⟩

/-- Bytes over an area and a time. -/
def traffic : Dimension where
  entries := [(utf8 "B", 1), (BaseDimension.length, -2), (BaseDimension.time, -1)]

/-- Bytes over a time. -/
def dataRate : Dimension where
  entries := [(utf8 "B", 1), (BaseDimension.time, -1)]

/-- The custom base dimension comes last in writing, though it is first in byte order. -/
theorem canonicalText_spec_traffic :
    [BaseDimension.length, BaseDimension.time, utf8 "B"].Perm traffic.identifiers ∧
      [BaseDimension.length, BaseDimension.time, utf8 "B"].Pairwise Precedes ∧
      [BaseDimension.length, BaseDimension.time, utf8 "B"] = traffic.canonicalOrder ∧
      ∃ quotient, dataRate.quotient SI.Kind.area = .ok quotient ∧
        (∀ identifier ∈ traffic.identifiers, IsTellable identifier) ∧
        (∀ identifier ∈ quotient.identifiers, IsTellable identifier) ∧
        traffic.toText = quotient.toText ∧ traffic = quotient := by
  obtain ⟨horder, htext⟩ := canonicalText_spec
  have hperm : [BaseDimension.length, BaseDimension.time, utf8 "B"].Perm traffic.identifiers := by
    decide
  have hpairwise : [BaseDimension.length, BaseDimension.time, utf8 "B"].Pairwise Precedes := by
    decide
  have htellable : ∀ identifier ∈ traffic.identifiers, IsTellable identifier := by decide
  have hwritten : ((dataRate.quotient SI.Kind.area).toOption.map fun quotient ↦
      (quotient.identifiers, quotient.toText)) = some (traffic.identifiers, traffic.toText) := by
    decide +kernel
  cases hquotient : dataRate.quotient SI.Kind.area with
  | error error =>
    rw [hquotient] at hwritten
    cases hwritten
  | ok quotient =>
    rw [hquotient] at hwritten
    obtain ⟨hidentifiers, hsame⟩ := Prod.mk.inj (Option.some.inj hwritten)
    have hquotientTellable : ∀ identifier ∈ quotient.identifiers, IsTellable identifier :=
      hidentifiers ▸ htellable
    exact ⟨hperm, hpairwise, (horder traffic).2.2.1 _ hperm hpairwise, quotient, rfl, htellable,
      hquotientTellable, hsame.symm, htext traffic quotient htellable hquotientTellable hsame.symm⟩

end Metrology.Dimension
