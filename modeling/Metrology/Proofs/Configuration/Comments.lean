import Metrology.Proofs.Configuration.Interchange

/-!
# Comments at the end of a line

A comment behind a line is cut off from the value of an entry only, after it is decided what the
line is. So a line stays what it is when the comment neither closes a bracket nor brings the first
equals sign (`Line.BearsComment`); no header does. A comment that a line bears makes no difference
to what is loaded from any text, and every other comment makes one in some text
(`Configuration.interchangeable_commented_iff`).
-/

set_option autoImplicit false
set_option relaxedAutoImplicit false

namespace Metrology

namespace Line

/-- A line with a comment behind it. -/
def commented (line comment : Text) : Text :=
  line ++ (utf8 " # " ++ comment)

/-- A line is blank or a comment. -/
def IsSkipped (line : Text) : Prop :=
  ∀ byte ∈ (Text.trim line).head?, byte = 35 ∨ byte = 59

/-- A line stays what it is when a comment is written behind it: it is no header, the comment does
not close a bracket that the line starts with, and it does not have the first equals sign of a line
that is not skipped. -/
structure BearsComment (line comment : Text) : Prop where
  not_header : ∀ heading, ¬ IsHeader line heading
  not_closed : (Text.trim line).head? = some 91 → (Text.trim comment).getLast? ≠ some 93
  not_split : 61 ∈ comment → 61 ∈ line ∨ IsSkipped line

/-! ### What lines without comment are -/

variable {line heading : Text}

theorem ofText_of_isSkipped (hskipped : IsSkipped line) : ofText line = .skipped := by
  rw [IsSkipped] at hskipped
  rw [ofText]
  cases hline : Text.trim line with
  | nil => rfl
  | cons first rest =>
    rw [ofTrimmed, if_pos (startsComment_iff.mpr (hskipped first (by rw [hline]; rfl)))]

/-- A line is a header when it starts and ends with brackets. -/
theorem exists_isHeader_iff : (∃ heading, IsHeader line heading) ↔
    (Text.trim line).head? = some 91 ∧ (Text.trim line).getLast? = some 93 := by
  rw [bracketed_iff]
  exact ⟨fun ⟨_, written, hwritten, _⟩ ↦ ⟨written, hwritten⟩,
    fun ⟨written, hwritten⟩ ↦ ⟨_, written, hwritten, rfl⟩⟩

/-- A header has one closing bracket more than its heading. -/
theorem IsHeader.count_eq (hheader : IsHeader line heading) :
    line.count 93 = heading.count 93 + 1 := by
  obtain ⟨written, hwritten, rfl⟩ := hheader
  rw [← Text.count_trim line rfl, hwritten, Text.count_trim written rfl]
  simp

theorem IsEntry.equals_mem {key value : Text} (hentry : IsEntry line key value) : 61 ∈ line := by
  obtain ⟨_, _, _, _, hparts, _⟩ := hentry.exists_parts
  exact Text.mem_of_mem_trim (by simp [hparts])

/-- A line with an equals sign that is neither skipped nor a header is an entry. The key is not
empty, unless the equals sign comes first. -/
theorem exists_isEntry (hskipped : ¬ IsSkipped line) (hheader : ∀ heading, ¬ IsHeader line heading)
    (hequals : 61 ∈ line) : ∃ key value, IsEntry line key value ∧
      ((Text.trim line).head? ≠ some 61 → key ≠ []) := by
  obtain ⟨second, hparts⟩ := Text.exists_eq_before_append
    ((Text.mem_trim_iff (by rfl)).mpr hequals)
  obtain ⟨kept, comment, hvalue⟩ := valueOf_eq_iff.mp (rfl : valueOf second = _)
  refine ⟨_, _, ⟨?_, hheader, _, second, kept, comment, hparts, Text.not_mem_takeWhile 61 _, rfl,
    hvalue⟩, fun hfirst hkey ↦ ?_⟩
  · intro byte hbyte
    refine not_or.mp fun hcomment ↦ hskipped fun other hother ↦ ?_
    rwa [Option.mem_unique hother hbyte]
  · cases hbefore : Text.before 61 (Text.trim line) with
    | nil => exact hfirst (by rw [hparts, hbefore]; rfl)
    | cons byte rest =>
      have hblank := Text.isMargin_of_trim_eq_nil hkey byte (by simp [hbefore])
      rw [(Text.isTrimmed_trim line).1 byte (by rw [hparts, hbefore]; rfl)] at hblank
      cases hblank

/-- A line without equals sign does nothing, unless it is a header. -/
theorem effect_of_equals_not_mem (hheader : ∀ heading, ¬ IsHeader line heading)
    (hequals : 61 ∉ line) : (ofText line).effect = .skipped := by
  cases hline : ofText line with
  | header heading => exact absurd (ofText_eq_header_iff.mp hline) (hheader heading)
  | entry key value => exact absurd (ofText_eq_entry_iff.mp hline).equals_mem hequals
  | skipped => rfl
  | invalid content => rfl

/-! ### Lines with a comment -/

variable {comment : Text}

theorem exists_trim_commented (line comment : Text) : ∃ gap space : Text, gap.IsMargin ∧
    space.IsMargin ∧ (Text.trim line = [] → gap = []) ∧ Text.trim (commented line comment) =
      Text.trim line ++ (gap ++ 35 :: (space ++ Text.trim comment)) := by
  obtain ⟨gap, hgap, hline, hnil⟩ := Text.exists_trim_append line (utf8 " # " ++ comment)
  obtain ⟨space, hspace, hcomment, -⟩ := Text.exists_trim_append (utf8 " # ") comment
  exact ⟨gap, space, hgap, hspace, hnil, by rw [commented, hline, hcomment]; rfl⟩

/-- A comment does not change what a line starts with. -/
theorem head_trim_commented (line comment : Text) :
    (Text.trim (commented line comment)).head? = (Text.trim line).head?.or (some 35) := by
  obtain ⟨gap, space, -, -, hnil, htrim⟩ := exists_trim_commented line comment
  rw [htrim]
  cases hline : Text.trim line with
  | nil =>
    rw [hnil hline]
    rfl
  | cons first rest => rfl

theorem isSkipped_commented_iff : IsSkipped (commented line comment) ↔ IsSkipped line := by
  rw [IsSkipped, IsSkipped, head_trim_commented]
  cases (Text.trim line).head? <;> simp

/-- The closing bracket of a line with a comment is that of the comment. -/
theorem getLast_trim_commented_iff : (Text.trim (commented line comment)).getLast? = some 93 ↔
    (Text.trim comment).getLast? = some 93 := by
  obtain ⟨gap, space, -, hspace, -, htrim⟩ := exists_trim_commented line comment
  rw [htrim, ← List.cons_append, ← List.append_assoc, ← List.append_assoc, List.getLast?_append]
  cases hcomment : (Text.trim comment).getLast? with
  | some byte => rw [Option.some_or]
  | none =>
    have hhash : (35 :: space).getLast? ≠ some 93 := fun hlast ↦
      (List.mem_cons.mp (List.mem_of_getLast? hlast)).elim (by decide) (hspace.not_mem rfl)
    rw [Option.none_or, List.getLast?_append, List.getLast?_cons, Option.some_or,
      ← List.getLast?_cons]
    simpa using hhash

theorem exists_isHeader_commented_iff : (∃ heading, IsHeader (commented line comment) heading) ↔
    (Text.trim line).head? = some 91 ∧ (Text.trim comment).getLast? = some 93 := by
  rw [exists_isHeader_iff, head_trim_commented, getLast_trim_commented_iff]
  cases (Text.trim line).head? <;> simp

theorem count_commented (line comment : Text) :
    (commented line comment).count 93 = line.count 93 + comment.count 93 := by
  have hhash : (utf8 " # ").count 93 = 0 := rfl
  rw [commented, List.count_append, List.count_append, hhash, Nat.zero_add]

/-- A comment is cut off from a value. -/
theorem valueOf_append_comment (written : Text) {gap : Text} (hgap : gap.IsMargin) (rest : Text) :
    valueOf (written ++ (gap ++ 35 :: rest)) = valueOf written := by
  rw [valueOf, valueOf, Text.trim_before_trim rfl, Text.trim_before_trim rfl]
  by_cases hhash : 35 ∈ written
  · rw [Text.before_append_of_mem hhash]
  · have hkept : 35 ∉ written ++ gap := List.not_mem_append hhash (hgap.not_mem rfl)
    rw [← List.append_assoc, Text.before_append_cons hkept, Text.before_of_not_mem hhash,
      Text.trim_append_margin written hgap]

/-- An entry stays the same entry, unless the comment makes it a header. -/
theorem IsEntry.commented {key value : Text} (hentry : IsEntry line key value)
    (hheader : ∀ heading, ¬ IsHeader (commented line comment) heading) :
    IsEntry (Line.commented line comment) key value := by
  obtain ⟨hcomment, -, first, second, kept, note, hparts, hfirst, hkey, hsecond⟩ := hentry
  obtain ⟨gap, space, hgap, -, -, htrim⟩ := exists_trim_commented line comment
  have hvalue : valueOf (second ++ (gap ++ 35 :: (space ++ Text.trim comment))) = value := by
    rw [valueOf_append_comment second hgap]
    exact valueOf_eq_iff.mpr ⟨kept, note, hsecond⟩
  obtain ⟨kept', note', hsecond'⟩ := valueOf_eq_iff.mp hvalue
  refine ⟨?_, hheader, first, _, kept', note', ?_, hfirst, hkey, hsecond'⟩
  · rw [head_trim_commented]
    cases hhead : (Text.trim line).head? with
    | none => simp [List.head?_eq_none_iff.mp hhead] at hparts
    | some byte =>
      rintro _ ⟨⟩
      exact hcomment byte hhead
  · rw [htrim, hparts, List.append_assoc, List.cons_append]

/-- A header does not stay the same header. -/
theorem IsHeader.not_isHeader_commented (hheader : IsHeader line heading) :
    ¬ IsHeader (commented line comment) heading := by
  intro hcommented
  have hlast := (exists_isHeader_commented_iff.mp ⟨heading, hcommented⟩).2
  have hmem : 93 ∈ comment := Text.mem_of_mem_trim (List.mem_of_getLast? hlast)
  have hcount := hcommented.count_eq
  rw [count_commented, hheader.count_eq] at hcount
  have hpos := List.count_pos_iff.mpr hmem
  omega

/-- A comment with an equals sign makes an entry of a line without one. -/
theorem effect_commented_ne_skipped (hskipped : ¬ IsSkipped line) (hline : 61 ∉ line)
    (hheader : ∀ heading, ¬ IsHeader (commented line comment) heading) (hequals : 61 ∈ comment) :
    (ofText (commented line comment)).effect ≠ .skipped := by
  obtain ⟨key, value, hentry, hkey⟩ := exists_isEntry (mt isSkipped_commented_iff.mp hskipped)
    hheader (List.mem_append_right line (List.mem_append_right _ hequals))
  have hhead : (Text.trim (commented line comment)).head? ≠ some 61 := by
    rw [head_trim_commented]
    cases hfirst : (Text.trim line).head? with
    | none => simp
    | some byte =>
      rintro ⟨⟩
      exact hline (Text.mem_of_mem_trim (List.mem_of_head? hfirst))
  rw [ofText_eq_entry_iff.mpr hentry, effect, if_neg (hkey hhead)]
  exact Line.noConfusion

theorem BearsComment.not_isHeader_commented (hbears : BearsComment line comment)
    (heading : Text) : ¬ IsHeader (commented line comment) heading := by
  intro hcommented
  obtain ⟨hhead, hlast⟩ := exists_isHeader_commented_iff.mp ⟨heading, hcommented⟩
  exact hbears.not_closed hhead hlast

theorem BearsComment.effect_commented (hbears : BearsComment line comment) :
    (ofText (commented line comment)).effect = (ofText line).effect := by
  have hheader := hbears.not_isHeader_commented
  by_cases hskipped : IsSkipped line
  · rw [ofText_of_isSkipped hskipped, ofText_of_isSkipped (isSkipped_commented_iff.mpr hskipped)]
  by_cases hequals : 61 ∈ line
  · obtain ⟨key, value, hentry, -⟩ := exists_isEntry hskipped hbears.not_header hequals
    rw [ofText_eq_entry_iff.mpr hentry, ofText_eq_entry_iff.mpr (hentry.commented hheader)]
  · have hcomment : 61 ∉ comment := fun hmem ↦ (hbears.not_split hmem).elim hequals hskipped
    have hcommented : 61 ∉ commented line comment :=
      List.not_mem_append hequals (List.not_mem_append (by decide) hcomment)
    rw [effect_of_equals_not_mem hbears.not_header hequals,
      effect_of_equals_not_mem hheader hcommented]

/-- A line that has the same effect with a comment bears the comment. -/
theorem bearsComment_of_effect
    (heffect : (ofText (commented line comment)).effect = (ofText line).effect) :
    BearsComment line comment := by
  have hsame : ∀ heading, IsHeader (commented line comment) heading ↔ IsHeader line heading := by
    intro heading
    rw [← ofText_eq_header_iff, ← effect_eq_header_iff, heffect, effect_eq_header_iff,
      ofText_eq_header_iff]
  have hheader : ∀ heading, ¬ IsHeader line heading :=
    fun heading hline ↦ hline.not_isHeader_commented ((hsame heading).mpr hline)
  have hcommented : ∀ heading, ¬ IsHeader (commented line comment) heading :=
    fun heading hline ↦ hheader heading ((hsame heading).mp hline)
  refine ⟨hheader, fun hhead hlast ↦ ?_, fun hequals ↦ ?_⟩
  · obtain ⟨heading, hline⟩ := exists_isHeader_commented_iff.mpr ⟨hhead, hlast⟩
    exact hcommented heading hline
  · by_contra hsplit
    obtain ⟨hline, hskipped⟩ := not_or.mp hsplit
    refine effect_commented_ne_skipped hskipped hline hcommented hequals ?_
    rw [heffect, effect_of_equals_not_mem hheader hline]

end Line

namespace Configuration

open Line

/-- A line with a comment can stand for the line without it exactly when the line bears the
comment. -/
theorem interchangeable_commented_iff {line comment : Text} (hline : 10 ∉ line)
    (hcomment : 10 ∉ comment) :
    Interchangeable (commented line comment) line ↔ BearsComment line comment := by
  have hcommented : 10 ∉ commented line comment :=
    List.not_mem_append hline (List.not_mem_append (by decide) hcomment)
  rw [interchangeable_iff hcommented hline]
  exact ⟨bearsComment_of_effect, BearsComment.effect_commented⟩

/-- An entry bears a comment that looks like an entry and like the end of a header. -/
theorem interchangeable_commented_pressure :
    10 ∉ utf8 "p = 2 bar" ∧ 10 ∉ utf8 "was [a = 1]" ∧
      Interchangeable (commented (utf8 "p = 2 bar") (utf8 "was [a = 1]")) (utf8 "p = 2 bar") := by
  have hentry : ofText (utf8 "p = 2 bar") = .entry (utf8 "p") (utf8 "2 bar") := by decide
  have hheader : ∀ heading, ¬ IsHeader (utf8 "p = 2 bar") heading := by
    intro heading hline
    rw [← ofText_eq_header_iff, hentry] at hline
    cases hline
  have hbears : BearsComment (utf8 "p = 2 bar") (utf8 "was [a = 1]") :=
    ⟨hheader, fun hhead ↦ absurd hhead (by decide), fun _ ↦ .inl (by decide)⟩
  exact ⟨by decide, by decide, (interchangeable_commented_iff (by decide) (by decide)).mpr hbears⟩

/-- A header with a comment is no header: the entries below it stand below the header before. -/
theorem load_commented_header :
    (empty.load (textOf [utf8 "[a]", utf8 "x = 1", utf8 "[b]", utf8 "y = 2"])).1.headings =
        [utf8 "a", utf8 "b"] ∧
      (empty.load (textOf [utf8 "[a]", utf8 "x = 1", commented (utf8 "[b]") (utf8 "c"),
          utf8 "y = 2"])).1.headings = [utf8 "a"] ∧
      (empty.load (textOf [utf8 "[a]", utf8 "x = 1", commented (utf8 "[b]") (utf8 "c"),
          utf8 "y = 2"])).1.keys (utf8 "a") = [utf8 "x", utf8 "y"] := by
  decide

end Configuration

end Metrology
