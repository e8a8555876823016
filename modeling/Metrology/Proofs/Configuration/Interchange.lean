import Metrology.Proofs.Configuration.Writing

/-!
# Lines that can be exchanged

A line acts on a configuration by its effect (`Line.effect`): it sets the heading, gives a key a
value, or does nothing. Whatever else a line says is only reported. Two lines can be exchanged in
every text, before any lines and behind any others, exactly when they have the same effect
(`Configuration.interchangeable_iff`).
-/

set_option autoImplicit false
set_option relaxedAutoImplicit false

namespace Metrology

/-- What a line does: invalid lines and entries without key do nothing. -/
def Line.effect : Line → Line
  | .invalid _ => .skipped
  | .entry key value => if key = [] then .skipped else .entry key value
  | line => line

theorem Line.effect_ne_invalid (line : Line) (text : Text) : line.effect ≠ .invalid text := by
  cases line with
  | entry key value =>
    rw [Line.effect]
    split <;> simp
  | _ => simp [Line.effect]

theorem Line.effect_eq_header_iff {line : Line} {heading : Text} :
    line.effect = .header heading ↔ line = .header heading := by
  cases line with
  | entry key value =>
    rw [Line.effect]
    split <;> simp
  | _ => simp [Line.effect]

namespace Configuration

/-- A line can stand for another in every text, without a difference to what is loaded. -/
def Interchangeable (first second : Text) : Prop :=
  ∀ (configuration : Configuration) (before after : List Text),
    (configuration.load (textOf (before ++ first :: after))).1 =
      (configuration.load (textOf (before ++ second :: after))).1

theorem linesOf_textOf_append {line : Text} (hline : 10 ∉ line) (before after : List Text) :
    linesOf (textOf (before ++ line :: after)) =
      before.flatMap linesOf ++ line :: after.flatMap linesOf := by
  rw [linesOf, textOf, Text.splitOn_intercalate (by simp), List.flatMap_append, List.flatMap_cons,
    Text.splitOn_of_not_mem hline]
  rfl

namespace Progress

/-! ### Lines of the same effect -/

theorem heading_step_effect (progress : Progress) (line : Text) :
    (progress.step line).heading =
      match (Line.ofText line).effect with
      | .header heading => heading
      | _ => progress.heading := by
  rw [heading_step]
  cases Line.ofText line with
  | entry key value => by_cases hkey : key = [] <;> simp [Line.effect, hkey]
  | _ => rfl

theorem configuration_step_effect (progress : Progress) (line : Text) :
    (progress.step line).configuration =
      match (Line.ofText line).effect with
      | .entry key value =>
        if progress.heading = [] then progress.configuration
        else progress.configuration.put ⟨progress.heading, key, value⟩
      | _ => progress.configuration := by
  rw [configuration_step]
  cases Line.ofText line with
  | entry key value =>
    rw [Line.effect]
    by_cases hkey : key = []
    · rw [if_pos hkey]
      exact if_pos (.inr hkey)
    · simp only [hkey, or_false, if_false]
  | _ => rfl

/-- Two states are alike in all that later lines depend on. -/
structure Matches (first second : Progress) : Prop where
  configuration : first.configuration = second.configuration
  heading : first.heading = second.heading

variable {first second : Progress}

theorem Matches.step (hmatches : first.Matches second) {line other : Text}
    (heffect : (Line.ofText line).effect = (Line.ofText other).effect) :
    (first.step line).Matches (second.step other) where
  configuration := by
    rw [configuration_step_effect, configuration_step_effect, heffect, hmatches.configuration,
      hmatches.heading]
  heading := by
    rw [heading_step_effect, heading_step_effect, heffect, hmatches.heading]

theorem Matches.foldl (hmatches : first.Matches second) (lines : List Text) :
    (lines.foldl Progress.step first).Matches (lines.foldl Progress.step second) := by
  induction lines generalizing first second with
  | nil => exact hmatches
  | cons line rest ih => exact ih (hmatches.step rfl)

end Progress

theorem interchangeable_of_effect {first second : Text} (hfirst : 10 ∉ first)
    (hsecond : 10 ∉ second) (heffect : (Line.ofText first).effect = (Line.ofText second).effect) :
    Interchangeable first second := by
  intro configuration before after
  show ((linesOf _).foldl Progress.step _).configuration =
    ((linesOf _).foldl Progress.step _).configuration
  rw [linesOf_textOf_append hfirst, linesOf_textOf_append hsecond, List.foldl_append,
    List.foldl_append, List.foldl_cons, List.foldl_cons]
  have hsame : ∀ progress : Progress, progress.Matches progress := fun _ ↦ ⟨rfl, rfl⟩
  exact (((hsame _).step heffect).foldl _).configuration

/-! ### Lines of different effects -/

theorem Interchangeable.symm {first second : Text} (hlines : Interchangeable first second) :
    Interchangeable second first :=
  fun configuration before after ↦ (hlines configuration before after).symm

open Section

/-- What is loaded from a line below a heading, with other lines behind it. -/
def loadBelow (heading line : Text) (after : List Text) : Configuration :=
  (empty.load (textOf ([headerLine heading] ++ line :: after))).1

theorem loadBelow_eq {heading line : Text} (hheading : IsHeading heading) (hline : 10 ∉ line)
    (after : List Text) :
    loadBelow heading line after =
      ((after.flatMap linesOf).foldl Progress.step
        ((⟨empty, heading, 1, []⟩ : Progress).step line)).configuration := by
  have hheader : (⟨empty, [], 0, []⟩ : Progress).step (headerLine heading) =
      ⟨empty, heading, 1, []⟩ := by
    rw [Progress.step, ofText_headerLine hheading]
    rfl
  have hlines : linesOf (headerLine heading) = [headerLine heading] :=
    Text.splitOn_of_not_mem (by simp [headerLine_eq, hheading.lineFeed_not_mem])
  show ((linesOf _).foldl Progress.step _).configuration = _
  rw [linesOf_textOf_append hline, List.flatMap_singleton, hlines, List.singleton_append,
    List.foldl_cons, List.foldl_cons, hheader]

/-- A value is loaded from a line when the effect of the line is an entry. -/
theorem value?_loadBelow {heading line key value : Text} (hheading : IsHeading heading)
    (hline : 10 ∉ line) :
    (loadBelow heading line []).value? heading key = some value ↔
      (Line.ofText line).effect = .entry key value := by
  rw [loadBelow_eq hheading hline, List.flatMap_nil, List.foldl_nil,
    Progress.configuration_step_effect]
  cases (Line.ofText line).effect with
  | entry other written =>
    simp only [if_neg hheading.ne_nil, value?_put, Setting.IsAt, true_and, Line.entry.injEq]
    by_cases hkey : other = key
    · simp [hkey]
    · simp [hkey, value?, empty]
  | _ => simp [value?, empty]

/-- An entry behind a line stands below the heading that the line leaves. -/
theorem hasHeading_loadBelow {heading line : Text} (hheading : IsHeading heading)
    (hline : 10 ∉ line) (other : Text) :
    (loadBelow heading line [utf8 "k = v"]).hasHeading other = true ↔
      match (Line.ofText line).effect with
      | .header name => name ≠ [] ∧ name = other
      | _ => heading = other := by
  have hlines : linesOf (utf8 "k = v") = [utf8 "k = v"] := by decide
  have hentry : (Line.ofText (utf8 "k = v")).effect = .entry (utf8 "k") (utf8 "v") := by decide
  have hnone : empty.hasHeading other = false := rfl
  rw [loadBelow_eq hheading hline, List.flatMap_singleton, hlines, List.foldl_cons, List.foldl_nil,
    Progress.configuration_step_effect, hentry, Progress.heading_step_effect,
    Progress.configuration_step_effect]
  cases (Line.ofText line).effect with
  | header name => by_cases hname : name = [] <;> simp [hname, hasHeading_put, hnone]
  | _ => simp [hheading.ne_nil, hasHeading_put, hnone]

theorem exists_isHeading_ne (heading : Text) : ∃ other, IsHeading other ∧ other ≠ heading := by
  by_cases hheading : heading = utf8 "x"
  · exact ⟨utf8 "y", by decide, by rw [hheading]; decide⟩
  · exact ⟨utf8 "x", by decide, Ne.symm hheading⟩

variable {first second : Text}

/-- A line that can stand for a header is a header for the same heading. -/
theorem Interchangeable.header (hlines : Interchangeable first second) (hfirst : 10 ∉ first)
    (hsecond : 10 ∉ second) {heading : Text}
    (heffect : (Line.ofText first).effect = .header heading) :
    (Line.ofText second).effect = .header heading := by
  obtain ⟨around, haround, hne⟩ := exists_isHeading_ne heading
  have hheadings : ∀ other, (loadBelow around first [utf8 "k = v"]).hasHeading other = true ↔
      (loadBelow around second [utf8 "k = v"]).hasHeading other = true := by
    intro other
    rw [loadBelow, hlines]
    rfl
  simp only [hasHeading_loadBelow haround hfirst, hasHeading_loadBelow haround hsecond,
    heffect] at hheadings
  cases hother : (Line.ofText second).effect with
  | header name =>
    rw [hother] at hheadings
    by_cases hheading : heading = []
    · by_cases hname : name = []
      · rw [hname, hheading]
      · exact absurd hheading ((hheadings name).mpr ⟨hname, rfl⟩).1
    · rw [((hheadings heading).mp ⟨hheading, rfl⟩).2]
  | _ =>
    rw [hother] at hheadings
    exact absurd ((hheadings around).mpr rfl).2.symm hne

/-- A line that can stand for an entry is an entry with the same key and value. -/
theorem Interchangeable.entry (hlines : Interchangeable first second) (hfirst : 10 ∉ first)
    (hsecond : 10 ∉ second) {key value : Text}
    (heffect : (Line.ofText first).effect = .entry key value) :
    (Line.ofText second).effect = .entry key value := by
  obtain ⟨heading, hheading, -⟩ := exists_isHeading_ne []
  have hvalue := (value?_loadBelow hheading hfirst).mpr heffect
  rw [loadBelow, hlines] at hvalue
  exact (value?_loadBelow hheading hsecond).mp hvalue

/-- Lines can be exchanged when they have the same effect, and only then. -/
theorem interchangeable_iff (hfirst : 10 ∉ first) (hsecond : 10 ∉ second) :
    Interchangeable first second ↔
      (Line.ofText first).effect = (Line.ofText second).effect := by
  refine ⟨fun hlines ↦ ?_, interchangeable_of_effect hfirst hsecond⟩
  cases heffect : (Line.ofText first).effect with
  | header heading => exact (hlines.header hfirst hsecond heffect).symm
  | entry key value => exact (hlines.entry hfirst hsecond heffect).symm
  | invalid text => exact absurd heffect (Line.effect_ne_invalid _ text)
  | skipped =>
    cases hother : (Line.ofText second).effect with
    | header heading => rw [← heffect, hlines.symm.header hsecond hfirst hother]
    | entry key value => rw [← heffect, hlines.symm.entry hsecond hfirst hother]
    | invalid text => exact absurd hother (Line.effect_ne_invalid _ text)
    | skipped => rfl

end Configuration

end Metrology
