import Metrology.Text.Basic

/-!
# Texts in byte order

Texts are ordered lexicographically by their bytes. A strictly increasing list of texts is the
canonical form of a finite set of them: `sortedSet` builds it, `mem_sortedSet` says what it holds,
`pairwise_sortedSet` that it is increasing, and `eq_of_mem_iff` that a set has no second form.
-/

set_option autoImplicit false
set_option relaxedAutoImplicit false

namespace Metrology.Text

/-- Puts a text at its place in an increasing list, which already may hold it. -/
def insertSorted (text : Text) : List Text → List Text
  | [] => [text]
  | first :: rest =>
    if text < first then text :: first :: rest
    else if text = first then first :: rest
    else first :: insertSorted text rest

/-- The texts of a list in byte order, each of them once. -/
def sortedSet (texts : List Text) : List Text :=
  texts.foldr insertSorted []

/-- A list of texts is strictly increasing in byte order. -/
abbrev Increasing (texts : List Text) : Prop :=
  texts.Pairwise (· < ·)

theorem lt_or_eq_or_gt (first second : Text) :
    first < second ∨ first = second ∨ second < first := by
  by_cases hlt : first < second
  · exact .inl hlt
  · by_cases hgt : second < first
    · exact .inr (.inr hgt)
    · exact .inr (.inl (List.le_antisymm (List.not_lt.mp hgt) (List.not_lt.mp hlt)))

@[simp] theorem mem_insertSorted {text other : Text} {texts : List Text} :
    other ∈ insertSorted text texts ↔ other = text ∨ other ∈ texts := by
  induction texts with
  | nil => simp [insertSorted]
  | cons first rest ih =>
    unfold insertSorted
    split
    · simp
    · split
      · next heq => simp [heq]
      · simp only [List.mem_cons, ih]
        exact ⟨fun h ↦ by rcases h with h | h | h <;> simp [h],
          fun h ↦ by rcases h with h | h | h <;> simp [h]⟩

theorem pairwise_insertSorted {text : Text} {texts : List Text} (htexts : Increasing texts) :
    Increasing (insertSorted text texts) := by
  induction texts with
  | nil => simp [insertSorted]
  | cons first rest ih =>
    obtain ⟨hfirst, hrest⟩ := List.pairwise_cons.mp htexts
    unfold insertSorted
    split
    · next hlt =>
      refine List.pairwise_cons.mpr ⟨fun other hother ↦ ?_, htexts⟩
      rcases List.mem_cons.mp hother with rfl | hother
      · exact hlt
      · exact List.lt_trans hlt (hfirst other hother)
    · next hnot =>
      split
      · exact htexts
      · next hne =>
        refine List.pairwise_cons.mpr ⟨fun other hother ↦ ?_, ih hrest⟩
        rcases mem_insertSorted.mp hother with rfl | hother
        · rcases lt_or_eq_or_gt other first with hlt | heq | hgt
          · exact absurd hlt hnot
          · exact absurd heq hne
          · exact hgt
        · exact hfirst other hother

@[simp] theorem mem_sortedSet {text : Text} {texts : List Text} :
    text ∈ sortedSet texts ↔ text ∈ texts := by
  induction texts with
  | nil => simp [sortedSet]
  | cons first rest ih =>
    rw [sortedSet, List.foldr_cons, mem_insertSorted, List.mem_cons]
    exact or_congr_right ih

theorem pairwise_sortedSet (texts : List Text) : Increasing (sortedSet texts) := by
  induction texts with
  | nil => simp [sortedSet]
  | cons first rest ih => exact pairwise_insertSorted ih

theorem nodup_of_increasing {texts : List Text} (htexts : Increasing texts) : texts.Nodup := by
  refine List.Pairwise.imp ?_ htexts
  rintro text _ hlt rfl
  exact List.lt_irrefl text hlt

/-- An increasing list is determined by what it holds. -/
theorem eq_of_mem_iff {first second : List Text} (hfirst : Increasing first)
    (hsecond : Increasing second) (hmem : ∀ text, text ∈ first ↔ text ∈ second) :
    first = second := by
  induction first generalizing second with
  | nil =>
    cases second with
    | nil => rfl
    | cons head tail => exact absurd ((hmem head).mpr (by simp)) (by simp)
  | cons head tail ih =>
    cases second with
    | nil => exact absurd ((hmem head).mp (by simp)) (by simp)
    | cons head' tail' =>
      obtain ⟨hhead, htail⟩ := List.pairwise_cons.mp hfirst
      obtain ⟨hhead', htail'⟩ := List.pairwise_cons.mp hsecond
      have heq : head = head' := by
        rcases List.mem_cons.mp ((hmem head).mp (by simp)) with h | h
        · exact h
        · rcases List.mem_cons.mp ((hmem head').mpr (by simp)) with h' | h'
          · exact h'.symm
          · exact absurd (List.lt_trans (hhead _ h') (hhead' _ h)) (List.lt_irrefl _)
      subst heq
      congr 1
      refine ih htail htail' fun text ↦ ⟨fun h ↦ ?_, fun h ↦ ?_⟩
      · rcases List.mem_cons.mp ((hmem text).mp (by simp [h])) with rfl | h'
        · exact absurd (hhead _ h) (List.lt_irrefl _)
        · exact h'
      · rcases List.mem_cons.mp ((hmem text).mpr (by simp [h])) with rfl | h'
        · exact absurd (hhead' _ h) (List.lt_irrefl _)
        · exact h'

/-- Under a key of entries in increasing order of their keys stands the value of its entry. -/
theorem lookup_of_increasing {α : Type} {entries : List (Text × α)} {entry : Text × α}
    (hincreasing : Increasing (entries.map Prod.fst)) (hentry : entry ∈ entries) :
    entries.lookup entry.1 = some entry.2 := by
  induction entries with
  | nil => cases hentry
  | cons first rest ih =>
    obtain ⟨hfirst, hrest⟩ := List.pairwise_cons.mp hincreasing
    rw [List.lookup_cons]
    rcases List.mem_cons.mp hentry with rfl | hmem
    · rw [beq_self_eq_true]
    · have hne : entry.1 ≠ first.1 := fun heq ↦
        List.lt_irrefl first.1 (heq ▸ hfirst entry.1 (List.mem_map_of_mem hmem))
      rw [beq_false_of_ne hne]
      exact ih hrest hmem

end Metrology.Text
