import Metrology.Text.Basic

/-!
# Trimming and cutting

A trimmed text has no blank at either end (`isTrimmed_trim`) and no bytes that the text had not. It
is what stands between the margins, the blanks at either end (`trim_eq_iff`), and only margins come
between two texts that are trimmed together (`exists_trim_append`). Cutting a text at the first
occurrence of a byte is characterised by its parts: the byte is not in the first part
(`cut?_eq_some_iff`, `before_eq_iff`).
-/

set_option autoImplicit false
set_option relaxedAutoImplicit false

namespace Metrology.Text

/-! ### Trimming -/

/-- A text does not start or end with a blank. -/
def IsTrimmed (text : Text) : Prop :=
  (∀ byte ∈ text.head?, isBlank byte = false) ∧ ∀ byte ∈ text.getLast?, isBlank byte = false

instance (text : Text) : Decidable text.IsTrimmed :=
  @instDecidableAnd _ _ (Option.decidableForallMem _) (Option.decidableForallMem _)

theorem isTrimmed_nil : IsTrimmed [] := by
  simp [IsTrimmed]

theorem isTrimmed_singleton {byte : UInt8} (hblank : isBlank byte = false) : IsTrimmed [byte] := by
  simp [IsTrimmed, hblank]

theorem isBlank_head_trimLeft (text : Text) :
    ∀ byte ∈ (trimLeft text).head?, isBlank byte = false := by
  intro byte hbyte
  have hhead := List.head?_dropWhile_not isBlank text
  rw [trimLeft] at hbyte
  rw [hbyte] at hhead
  simpa using hhead

/-- Trimming on the right takes bytes off the end only. -/
theorem exists_trimRight_append (text : Text) : ∃ blanks, trimRight text ++ blanks = text := by
  have hsuffix := @List.dropWhile_suffix _ text.reverse isBlank
  rw [← List.reverse_prefix, List.reverse_reverse] at hsuffix
  exact hsuffix

theorem isTrimmed_trim (text : Text) : (trim text).IsTrimmed := by
  constructor
  · intro byte hbyte
    obtain ⟨blanks, hblanks⟩ := exists_trimRight_append (trimLeft text)
    refine isBlank_head_trimLeft text byte ?_
    rw [trim, Option.mem_def] at hbyte
    rw [← hblanks, List.head?_append, hbyte]
    rfl
  · intro byte hbyte
    rw [trim, trimRight, List.getLast?_reverse] at hbyte
    exact isBlank_head_trimLeft _ byte hbyte

theorem mem_of_mem_trim {text : Text} {byte : UInt8} (hbyte : byte ∈ trim text) : byte ∈ text := by
  obtain ⟨blanks, hblanks⟩ := exists_trimRight_append (trimLeft text)
  have hmem : byte ∈ trimLeft text := hblanks ▸ List.mem_append_left blanks hbyte
  exact List.dropWhile_subset isBlank hmem

/-! ### Margins -/

/-- A text consists of blanks. -/
def IsMargin (text : Text) : Prop :=
  ∀ byte ∈ text, isBlank byte = true

theorem isMargin_nil : IsMargin [] := by
  simp [IsMargin]

theorem isMargin_space : IsMargin [32] := by
  simp [IsMargin, isBlank]

theorem IsMargin.append {first second : Text} (hfirst : first.IsMargin)
    (hsecond : second.IsMargin) : (first ++ second).IsMargin :=
  fun byte hbyte ↦ (List.mem_append.mp hbyte).elim (hfirst byte) (hsecond byte)

theorem trimLeft_append {margin text : Text} (hmargin : margin.IsMargin)
    (htext : ∀ byte ∈ text.head?, isBlank byte = false) : trimLeft (margin ++ text) = text := by
  rw [trimLeft, List.dropWhile_append_of_pos hmargin]
  cases text with
  | nil => rfl
  | cons byte rest => rw [List.dropWhile_cons_of_neg (by simp [htext byte rfl])]

theorem trimRight_append {text margin : Text} (hmargin : margin.IsMargin)
    (htext : ∀ byte ∈ text.getLast?, isBlank byte = false) : trimRight (text ++ margin) = text := by
  rw [trimRight, List.reverse_append, trimLeft_append, List.reverse_reverse]
  · exact fun byte hbyte ↦ hmargin byte (List.mem_reverse.mp hbyte)
  · rwa [List.head?_reverse]

/-- Trimming takes a margin off either end. -/
theorem exists_trim (text : Text) : ∃ leading trailing : Text, leading.IsMargin ∧
    trailing.IsMargin ∧ text = leading ++ (trim text ++ trailing) := by
  have hmargin : ∀ text : Text, IsMargin (text.takeWhile isBlank) :=
    fun text byte hbyte ↦ List.all_eq_true.mp List.all_takeWhile byte hbyte
  refine ⟨text.takeWhile isBlank, ((trimLeft text).reverse.takeWhile isBlank).reverse,
    hmargin text, fun byte hbyte ↦ hmargin _ byte (List.mem_reverse.mp hbyte), ?_⟩
  rw [trim, trimRight, ← List.reverse_append, trimLeft.eq_1 (trimLeft text).reverse,
    List.takeWhile_append_dropWhile, List.reverse_reverse, trimLeft,
    List.takeWhile_append_dropWhile]

/-- What stands between margins and is trimmed itself is the trimmed text. -/
theorem trim_eq_iff {text core : Text} : trim text = core ↔ core.IsTrimmed ∧
    ∃ leading trailing : Text, leading.IsMargin ∧ trailing.IsMargin ∧
      text = leading ++ (core ++ trailing) := by
  constructor
  · rintro rfl
    exact ⟨isTrimmed_trim text, exists_trim text⟩
  · rintro ⟨hcore, leading, trailing, hleading, htrailing, rfl⟩
    by_cases hempty : core = []
    · subst hempty
      have hnothing := @trimLeft_append _ [] (hleading.append htrailing) (by simp)
      rw [List.append_nil] at hnothing
      rw [List.nil_append, trim, hnothing]
      rfl
    · obtain ⟨first, rest, rfl⟩ := List.exists_cons_of_ne_nil hempty
      rw [trim, @trimLeft_append _ (first :: rest ++ trailing) hleading hcore.1,
        trimRight_append htrailing hcore.2]

theorem trim_eq_self {text : Text} (htext : text.IsTrimmed) : trim text = text :=
  trim_eq_iff.mpr ⟨htext, [], [], isMargin_nil, isMargin_nil, by simp⟩

theorem trim_append_margin (text : Text) {margin : Text} (hmargin : margin.IsMargin) :
    trim (text ++ margin) = trim text := by
  obtain ⟨leading, trailing, hleading, htrailing, hparts⟩ := exists_trim text
  refine trim_eq_iff.mpr ⟨isTrimmed_trim text, leading, trailing ++ margin, hleading,
    htrailing.append hmargin, ?_⟩
  conv => lhs; rw [hparts]
  simp only [List.append_assoc]

theorem trim_margin_append {margin : Text} (hmargin : margin.IsMargin) (text : Text) :
    trim (margin ++ text) = trim text := by
  obtain ⟨leading, trailing, hleading, htrailing, hparts⟩ := exists_trim text
  refine trim_eq_iff.mpr ⟨isTrimmed_trim text, margin ++ leading, trailing,
    hmargin.append hleading, htrailing, ?_⟩
  conv => lhs; rw [hparts]
  simp only [List.append_assoc]

theorem IsMargin.not_mem {margin : Text} (hmargin : margin.IsMargin) {byte : UInt8}
    (hblank : isBlank byte = false) : byte ∉ margin := by
  intro hbyte
  rw [hmargin byte hbyte] at hblank
  cases hblank

/-- Trimming takes no other bytes than blanks. -/
theorem count_trim (text : Text) {byte : UInt8} (hblank : isBlank byte = false) :
    (trim text).count byte = text.count byte := by
  obtain ⟨leading, trailing, hleading, htrailing, hparts⟩ := exists_trim text
  conv => rhs; rw [hparts]
  rw [List.count_append, List.count_append, List.count_eq_zero_of_not_mem (hleading.not_mem hblank),
    List.count_eq_zero_of_not_mem (htrailing.not_mem hblank)]
  omega

theorem mem_trim_iff {text : Text} {byte : UInt8} (hblank : isBlank byte = false) :
    byte ∈ trim text ↔ byte ∈ text := by
  rw [← List.count_pos_iff, count_trim text hblank, List.count_pos_iff]

/-- Trimmed texts may have anything between them. -/
theorem IsTrimmed.around {first second : Text} (hfirst : first.IsTrimmed)
    (hsecond : second.IsTrimmed) (hsome : first ≠ []) (hsome' : second ≠ []) (middle : Text) :
    (first ++ (middle ++ second)).IsTrimmed := by
  constructor
  · obtain ⟨byte, rest, rfl⟩ := List.exists_cons_of_ne_nil hsome
    exact hfirst.1
  · rw [← List.append_assoc, List.getLast?_append, List.getLast?_eq_some_getLast hsome',
      Option.some_or, ← List.getLast?_eq_some_getLast hsome']
    exact hsecond.2

theorem isMargin_of_trim_eq_nil {text : Text} (htext : trim text = []) : text.IsMargin := by
  obtain ⟨leading, trailing, hleading, htrailing, hparts⟩ := exists_trim text
  rw [htext, List.nil_append] at hparts
  exact hparts ▸ hleading.append htrailing

/-- Only margins come between two texts that are trimmed together. -/
theorem exists_trim_append (first second : Text) : ∃ gap : Text, gap.IsMargin ∧
    trim (first ++ second) = trim first ++ (gap ++ trim second) ∧ (trim first = [] → gap = []) := by
  by_cases hfirst : trim first = []
  · refine ⟨[], isMargin_nil, ?_, fun _ ↦ rfl⟩
    rw [trim_margin_append (isMargin_of_trim_eq_nil hfirst), hfirst]
    rfl
  by_cases hsecond : trim second = []
  · refine ⟨[], isMargin_nil, ?_, fun _ ↦ rfl⟩
    rw [trim_append_margin first (isMargin_of_trim_eq_nil hsecond), hsecond]
    exact (List.append_nil _).symm
  obtain ⟨leading, trailing, hleading, htrailing, hparts⟩ := exists_trim first
  obtain ⟨leading', trailing', hleading', htrailing', hparts'⟩ := exists_trim second
  refine ⟨trailing ++ leading', htrailing.append hleading', trim_eq_iff.mpr
    ⟨(isTrimmed_trim first).around (isTrimmed_trim second) hfirst hsecond _, leading, trailing',
      hleading, htrailing', ?_⟩, fun hnil ↦ absurd hnil hfirst⟩
  conv => lhs; rw [hparts, hparts']
  simp only [List.append_assoc]

/-! ### Cutting -/

theorem not_mem_takeWhile (delimiter : UInt8) (text : Text) :
    delimiter ∉ text.takeWhile (· != delimiter) := by
  intro hmem
  simpa using List.all_eq_true.mp List.all_takeWhile delimiter hmem

theorem head_dropWhile (delimiter : UInt8) (text : Text) :
    ∀ byte ∈ (text.dropWhile (· != delimiter)).head?, byte = delimiter := by
  intro byte hbyte
  have hhead := List.head?_dropWhile_not (· != delimiter) text
  rw [Option.mem_def.mp hbyte] at hhead
  simpa using hhead

theorem takeWhile_append {delimiter : UInt8} {first rest : Text} (hfirst : delimiter ∉ first)
    (hrest : ∀ byte ∈ rest.head?, byte = delimiter) :
    (first ++ rest).takeWhile (· != delimiter) = first ∧
      (first ++ rest).dropWhile (· != delimiter) = rest := by
  have hall : ∀ byte ∈ first, (byte != delimiter) = true :=
    fun byte hbyte ↦ bne_iff_ne.mpr fun heq ↦ hfirst (heq ▸ hbyte)
  rw [List.takeWhile_append_of_pos hall, List.dropWhile_append_of_pos hall]
  cases rest with
  | nil => exact ⟨List.append_nil first, rfl⟩
  | cons byte rest => simp [hrest byte rfl]

/-- The part before a byte, and what follows it: nothing, or the byte and the rest. -/
theorem before_eq_iff {delimiter : UInt8} {text first : Text} :
    before delimiter text = first ↔ delimiter ∉ first ∧
      ∃ rest, text = first ++ rest ∧ ∀ byte ∈ rest.head?, byte = delimiter := by
  constructor
  · rintro rfl
    exact ⟨not_mem_takeWhile delimiter text, _, List.takeWhile_append_dropWhile.symm,
      head_dropWhile delimiter text⟩
  · rintro ⟨hfirst, rest, rfl, hrest⟩
    exact (takeWhile_append hfirst hrest).1

theorem before_of_not_mem {delimiter : UInt8} {text : Text} (htext : delimiter ∉ text) :
    before delimiter text = text :=
  before_eq_iff.mpr ⟨htext, [], by simp, by simp⟩

theorem before_append_cons {delimiter : UInt8} {first : Text} (hfirst : delimiter ∉ first)
    (rest : Text) : before delimiter (first ++ delimiter :: rest) = first :=
  before_eq_iff.mpr ⟨hfirst, delimiter :: rest, rfl, by simp⟩

theorem exists_eq_before_append {delimiter : UInt8} {text : Text} (htext : delimiter ∈ text) :
    ∃ rest, text = before delimiter text ++ delimiter :: rest := by
  obtain ⟨hbefore, rest, hparts, hrest⟩ := before_eq_iff.mp (rfl : before delimiter text = _)
  cases rest with
  | nil => exact absurd (hparts ▸ htext) (by rwa [List.append_nil])
  | cons byte rest => exact ⟨rest, by rwa [hrest byte rfl] at hparts⟩

theorem before_append_of_mem {delimiter : UInt8} {first : Text} (hfirst : delimiter ∈ first)
    (second : Text) : before delimiter (first ++ second) = before delimiter first := by
  obtain ⟨rest, hparts⟩ := exists_eq_before_append hfirst
  refine before_eq_iff.mpr ⟨not_mem_takeWhile delimiter first, delimiter :: (rest ++ second), ?_,
    by simp⟩
  conv => lhs; rw [hparts]
  simp only [List.append_assoc, List.cons_append]

/-- Trimming a text that is cut later changes nothing but the margins of the first part. -/
theorem trim_before_trim {delimiter : UInt8} (hblank : isBlank delimiter = false) (text : Text) :
    trim (before delimiter (trim text)) = trim (before delimiter text) := by
  by_cases hmem : delimiter ∈ trim text
  · obtain ⟨leading, trailing, hleading, -, hparts⟩ := exists_trim text
    obtain ⟨rest, hrest⟩ := exists_eq_before_append hmem
    have hbefore : before delimiter text = leading ++ before delimiter (trim text) := by
      refine before_eq_iff.mpr ⟨?_, delimiter :: (rest ++ trailing), ?_, by simp⟩
      · exact List.not_mem_append (hleading.not_mem hblank) (not_mem_takeWhile delimiter _)
      · conv => lhs; rw [hparts, hrest]
        simp only [List.append_assoc, List.cons_append]
    rw [hbefore, trim_margin_append hleading]
  · have hnone : delimiter ∉ text := fun hdelimiter ↦ hmem ((mem_trim_iff hblank).mpr hdelimiter)
    rw [before_of_not_mem hmem, before_of_not_mem hnone, trim_eq_self (isTrimmed_trim text)]

/-- A text that is cut is what comes before the first occurrence of the byte, the byte and the
rest. -/
theorem cut?_eq_some_iff {delimiter : UInt8} {text first second : Text} :
    cut? delimiter text = some (first, second) ↔
      text = first ++ delimiter :: second ∧ delimiter ∉ first := by
  constructor
  · intro hcut
    unfold cut? at hcut
    split at hcut
    · cases hcut
    · next byte rest hrest =>
      cases hcut
      have hbyte := head_dropWhile delimiter text byte (by rw [hrest]; rfl)
      rw [hbyte] at hrest
      exact ⟨by rw [← hrest, List.takeWhile_append_dropWhile], not_mem_takeWhile delimiter text⟩
  · rintro ⟨rfl, hfirst⟩
    have hhead : ∀ byte ∈ (delimiter :: second).head?, byte = delimiter :=
      fun byte hbyte ↦ (Option.some.inj hbyte).symm
    obtain ⟨htake, hdrop⟩ := takeWhile_append hfirst hhead
    rw [cut?, hdrop, htake]

end Metrology.Text
