import Mathlib.Data.List.Nodup
import Mathlib.Tactic.MkIffOfInductiveProp
import Metrology.Proofs.Configuration.Loading
import Metrology.Proofs.Text.Splitting

/-!
# Written configurations read back

A configuration is written in sections: a header for the heading, and a line for every key with its
value (`Section.lines`). A section can be written as long as its lines cannot be taken for others
(`Section.IsWritable`). Each line then says what was written, so loading puts the settings of the
sections one after the other (`Configuration.configuration_load_sections`), and these are found
again under the headings.
-/

set_option autoImplicit false
set_option relaxedAutoImplicit false

namespace Metrology

/-- A heading, with the keys and values that stand below it. -/
structure Section where
  heading : Text
  entries : List (Text × Text)

namespace Section

/-- The settings of a section. -/
def settings (part : Section) : List Setting :=
  part.entries.map fun entry ↦ ⟨part.heading, entry.1, entry.2⟩

/-- A heading as it is written. -/
def headerLine (heading : Text) : Text :=
  utf8 "[" ++ heading ++ utf8 "]"

/-- A key and its value as they are written. -/
def entryLine (entry : Text × Text) : Text :=
  entry.1 ++ utf8 " = " ++ entry.2

/-- A section as it is written, line by line. -/
def lines (part : Section) : List Text :=
  headerLine part.heading :: part.entries.map entryLine

/-- A text can be written as a heading. -/
@[mk_iff] structure IsHeading (heading : Text) : Prop where
  ne_nil : heading ≠ []
  trimmed : heading.IsTrimmed
  lineFeed_not_mem : 10 ∉ heading

/-- A text can be written as a key: it has no equals sign, and starts neither a comment nor a
header. -/
@[mk_iff] structure IsKey (key : Text) : Prop where
  ne_nil : key ≠ []
  trimmed : key.IsTrimmed
  lineFeed_not_mem : 10 ∉ key
  equals_not_mem : 61 ∉ key
  starts_entry : ∀ byte ∈ key.head?, byte ≠ 35 ∧ byte ≠ 59 ∧ byte ≠ 91

/-- A text can be written as a value: it has no `#`, which would start a comment. -/
@[mk_iff] structure IsValue (value : Text) : Prop where
  trimmed : value.IsTrimmed
  lineFeed_not_mem : 10 ∉ value
  hash_not_mem : 35 ∉ value

/-- A section can be written: its lines cannot be taken for others. -/
@[mk_iff] structure IsWritable (part : Section) : Prop where
  isHeading : IsHeading part.heading
  isEntry : ∀ entry ∈ part.entries, IsKey entry.1 ∧ IsValue entry.2
  nodup_keys : (part.entries.map Prod.fst).Nodup
  entries_ne_nil : part.entries ≠ []

instance (heading : Text) : Decidable (IsHeading heading) :=
  decidable_of_iff _ (isHeading_iff heading).symm

instance (key : Text) : Decidable (IsKey key) :=
  haveI : Decidable (∀ byte ∈ key.head?, byte ≠ 35 ∧ byte ≠ 59 ∧ byte ≠ 91) :=
    Option.decidableForallMem _
  decidable_of_iff _ (isKey_iff key).symm

instance (value : Text) : Decidable (IsValue value) :=
  decidable_of_iff _ (isValue_iff value).symm

instance (part : Section) : Decidable part.IsWritable :=
  decidable_of_iff _ (isWritable_iff part).symm

/-! ### What the lines say -/

theorem headerLine_eq (heading : Text) : headerLine heading = [91] ++ (heading ++ [93]) :=
  List.append_assoc (utf8 "[") heading (utf8 "]")

theorem ofText_headerLine {heading : Text} (hheading : IsHeading heading) :
    Line.ofText (headerLine heading) = .header heading := by
  have hopening : Text.IsTrimmed [91] := Text.isTrimmed_singleton rfl
  have hclosing : Text.IsTrimmed [93] := Text.isTrimmed_singleton rfl
  have htrimmed := hopening.around hclosing (by simp) (by simp) heading
  refine Line.ofText_eq_header_iff.mpr ⟨heading, ?_, Text.trim_eq_self hheading.trimmed⟩
  rw [headerLine_eq, Text.trim_eq_self htrimmed, List.singleton_append]

theorem entryLine_eq (entry : Text × Text) :
    entryLine entry = entry.1 ++ ([32, 61, 32] ++ entry.2) :=
  List.append_assoc entry.1 (utf8 " = ") entry.2

/-- Behind the equals sign of an entry stands its value, with a space unless it is empty. -/
theorem exists_trim_entryLine {entry : Text × Text} (hkey : IsKey entry.1)
    (hvalue : IsValue entry.2) : ∃ second, Text.trim (entryLine entry) =
      (entry.1 ++ [32]) ++ 61 :: second ∧ Text.trim second = entry.2 := by
  by_cases hempty : entry.2 = []
  · have hequals : Text.IsTrimmed [61] := Text.isTrimmed_singleton rfl
    have htrimmed := hkey.trimmed.around hequals hkey.ne_nil (by simp) [32]
    refine ⟨[], ?_, hempty.symm ▸ Text.trim_eq_self Text.isTrimmed_nil⟩
    rw [Text.trim_eq_iff, List.append_assoc]
    exact ⟨htrimmed, [], [32], Text.isMargin_nil, Text.isMargin_space,
      by simp [entryLine_eq, hempty]⟩
  · have htrimmed := hkey.trimmed.around hvalue.trimmed hkey.ne_nil hempty [32, 61, 32]
    refine ⟨32 :: entry.2, ?_, Text.trim_eq_iff.mpr
      ⟨hvalue.trimmed, [32], [], Text.isMargin_space, Text.isMargin_nil, by simp⟩⟩
    rw [entryLine_eq, Text.trim_eq_self htrimmed]
    simp

theorem ofText_entryLine {entry : Text × Text} (hkey : IsKey entry.1) (hvalue : IsValue entry.2) :
    Line.ofText (entryLine entry) = .entry entry.1 entry.2 := by
  obtain ⟨second, htrim, hsecond⟩ := exists_trim_entryLine hkey hvalue
  obtain ⟨first, rest, hfirst⟩ := List.exists_cons_of_ne_nil hkey.ne_nil
  obtain ⟨hhash, hsemicolon, hbracket⟩ := hkey.starts_entry first (by rw [hfirst]; rfl)
  have hhead : (Text.trim (entryLine entry)).head? = some first := by rw [htrim, hfirst]; rfl
  refine Line.ofText_eq_entry_iff.mpr ⟨?_, ?_, entry.1 ++ [32], second, entry.2, [], htrim, ?_,
    Text.trim_eq_iff.mpr ⟨hkey.trimmed, [], [32], Text.isMargin_nil, Text.isMargin_space, rfl⟩, ?_,
    hvalue.hash_not_mem, by simp, Text.trim_eq_self hvalue.trimmed⟩
  · rw [hhead]
    rintro byte ⟨⟩
    exact ⟨hhash, hsemicolon⟩
  · rintro heading ⟨written, hwritten, _⟩
    rw [hwritten] at hhead
    exact hbracket (Option.some.inj hhead).symm
  · simpa using hkey.equals_not_mem
  · rw [hsecond, List.append_nil]

/-! ### The settings below a heading -/

variable {sections : List Section}

theorem heading_of_mem_settings {part : Section} {setting : Setting}
    (hsetting : setting ∈ part.settings) : setting.heading = part.heading := by
  obtain ⟨entry, _, rfl⟩ := List.mem_map.mp hsetting
  rfl

theorem filter_settings (part : Section) (heading : Text) :
    (part.settings.filter fun setting ↦ setting.heading = heading) =
      if part.heading = heading then part.settings else [] := by
  split
  · next heq =>
    exact List.filter_eq_self.mpr fun setting hsetting ↦
      decide_eq_true ((heading_of_mem_settings hsetting).trans heq)
  · next hne =>
    exact List.filter_eq_nil_iff.mpr fun setting hsetting heq ↦
      hne ((heading_of_mem_settings hsetting).symm.trans (of_decide_eq_true heq))

theorem filter_flatMap_settings_eq_nil {heading : Text}
    (hnone : heading ∉ sections.map Section.heading) :
    ((sections.flatMap settings).filter fun setting ↦ setting.heading = heading) = [] := by
  refine List.filter_eq_nil_iff.mpr fun setting hsetting heq ↦ hnone ?_
  obtain ⟨part, hpart, hmem⟩ := List.mem_flatMap.mp hsetting
  rw [← of_decide_eq_true heq, heading_of_mem_settings hmem]
  exact List.mem_map_of_mem hpart

/-- Among the settings of sections with different headings, those below the heading of a section
are its own. -/
theorem filter_flatMap_settings (hnodup : (sections.map heading).Nodup) {part : Section}
    (hpart : part ∈ sections) :
    ((sections.flatMap settings).filter fun setting ↦ setting.heading = part.heading) =
      part.settings := by
  induction sections with
  | nil => cases hpart
  | cons first rest ih =>
    obtain ⟨hfirst, hrest⟩ := List.nodup_cons.mp hnodup
    rw [List.flatMap_cons, List.filter_append, filter_settings]
    rcases List.mem_cons.mp hpart with rfl | hmem
    · rw [if_pos rfl, filter_flatMap_settings_eq_nil hfirst, List.append_nil]
    · have hne : first.heading ≠ part.heading := fun heq ↦
        hfirst (heq ▸ List.mem_map_of_mem hmem)
      rw [if_neg hne, ih hrest hmem, List.nil_append]

/-- A setting of the sections at the place of an entry is that of the entry. -/
theorem value_eq_of_mem (hnodup : (sections.map heading).Nodup) {part : Section}
    (hpart : part ∈ sections) (hkeys : (part.entries.map Prod.fst).Nodup) {entry : Text × Text}
    (hentry : entry ∈ part.entries) {value : Text}
    (hsetting : ⟨part.heading, entry.1, value⟩ ∈ sections.flatMap settings) : value = entry.2 := by
  have hown : ⟨part.heading, entry.1, value⟩ ∈ part.settings := by
    rw [← filter_flatMap_settings hnodup hpart]
    exact List.mem_filter.mpr ⟨hsetting, by simp⟩
  obtain ⟨other, hother, heq⟩ := List.mem_map.mp hown
  obtain ⟨-, hkey, rfl⟩ := Setting.mk.inj heq
  rw [List.inj_on_of_nodup_map hkeys hother hentry hkey]

end Section

namespace Configuration

open Section

variable {sections : List Section}

theorem eraseDups_of_nodup {keys : List Text} (hnodup : keys.Nodup) : keys.eraseDups = keys := by
  induction keys with
  | nil => rfl
  | cons key rest ih =>
    obtain ⟨hkey, hrest⟩ := List.nodup_cons.mp hnodup
    have hothers : rest.filter (fun other ↦ !other == key) = rest :=
      List.filter_eq_self.mpr fun other hother ↦ by
        simpa using fun heq : other = key ↦ hkey (heq ▸ hother)
    rw [List.eraseDups_cons, hothers, ih hrest]

/-! ### Configurations of sections -/

/-- The keys below the heading of a section are its own, in their order. -/
theorem keys_putAll_settings (hnodup : (sections.map heading).Nodup) {part : Section}
    (hpart : part ∈ sections) (hkeys : (part.entries.map Prod.fst).Nodup) :
    (empty.putAll (sections.flatMap settings)).keys part.heading = part.entries.map Prod.fst := by
  have hown : part.settings.map Setting.key = part.entries.map Prod.fst := by
    rw [settings, List.map_map]
    rfl
  have hnew : (part.entries.map Prod.fst).filter (fun key ↦ key ∉ empty.keys part.heading) =
      part.entries.map Prod.fst := List.filter_eq_self.mpr fun _ _ ↦ rfl
  rw [agrees_empty.keys_putAll, Setting.newKeys, filter_flatMap_settings hnodup hpart, hown, hnew,
    eraseDups_of_nodup hkeys]
  rfl

theorem keys_putAll_settings_eq_nil {heading : Text}
    (hnone : heading ∉ sections.map Section.heading) :
    (empty.putAll (sections.flatMap settings)).keys heading = [] := by
  rw [agrees_empty.keys_putAll, Setting.newKeys, filter_flatMap_settings_eq_nil hnone]
  rfl

theorem value?_putAll_settings (hnodup : (sections.map heading).Nodup) {part : Section}
    (hpart : part ∈ sections) (hkeys : (part.entries.map Prod.fst).Nodup) {entry : Text × Text}
    (hentry : entry ∈ part.entries) :
    (empty.putAll (sections.flatMap settings)).value? part.heading entry.1 = some entry.2 := by
  have hkey : (empty.putAll (sections.flatMap settings)).hasKey part.heading entry.1 = true := by
    rw [(agrees_empty.putAll _).hasKey_iff, keys_putAll_settings hnodup hpart hkeys]
    exact List.mem_map_of_mem hentry
  obtain ⟨value, hvalue⟩ := Option.isSome_iff_exists.mp hkey
  rcases of_value?_putAll_eq_some hvalue with hsetting | hempty
  · rw [hvalue, value_eq_of_mem hnodup hpart hkeys hentry hsetting]
  · cases hempty

/-- The headings are those of the sections. -/
theorem headings_putAll_settings (hnodup : (sections.map heading).Nodup)
    (hwritable : ∀ part ∈ sections, part.IsWritable) :
    (empty.putAll (sections.flatMap settings)).headings.Perm (sections.map heading) := by
  refine (List.perm_ext_iff_of_nodup (nodup_headings _) hnodup).mpr fun heading ↦ ?_
  rw [(agrees_empty.putAll _).mem_headings_iff]
  constructor
  · intro hkeys
    exact Decidable.byContradiction fun hnone ↦ hkeys (keys_putAll_settings_eq_nil hnone)
  · intro hmem
    obtain ⟨part, hpart, rfl⟩ := List.mem_map.mp hmem
    have hpartWritable := hwritable part hpart
    rw [keys_putAll_settings hnodup hpart hpartWritable.nodup_keys, ne_eq, List.map_eq_nil_iff]
    exact hpartWritable.entries_ne_nil

/-! ### Reading the lines -/

/-- A text of lines. -/
def textOf (lines : List Text) : Text :=
  [10].intercalate lines

namespace Progress

/-- Entries that can be written are put below the heading, one after the other. -/
theorem configuration_foldl_entries {progress : Progress} (hheading : progress.heading ≠ [])
    {entries : List (Text × Text)} (hentries : ∀ entry ∈ entries, IsKey entry.1 ∧ IsValue entry.2) :
    ((entries.map entryLine).foldl step progress).configuration =
      progress.configuration.putAll
        (entries.map fun entry ↦ ⟨progress.heading, entry.1, entry.2⟩) := by
  induction entries generalizing progress with
  | nil => rfl
  | cons entry rest ih =>
    obtain ⟨hkey, hvalue⟩ := hentries entry (by simp)
    have hline := ofText_entryLine hkey hvalue
    have hsame : (progress.step (entryLine entry)).heading = progress.heading := by
      rw [heading_step, hline]
    have hput : (progress.step (entryLine entry)).configuration =
        progress.configuration.put ⟨progress.heading, entry.1, entry.2⟩ := by
      rw [configuration_step, hline]
      exact if_neg (not_or.mpr ⟨hheading, hkey.ne_nil⟩)
    rw [List.map_cons, List.foldl_cons, ih (hsame.symm ▸ hheading)
      fun other hother ↦ hentries other (List.mem_cons_of_mem entry hother), hsame, hput]
    rfl

theorem configuration_foldl_lines (progress : Progress) {part : Section}
    (hwritable : part.IsWritable) :
    (part.lines.foldl step progress).configuration =
      progress.configuration.putAll part.settings := by
  have hline := ofText_headerLine hwritable.isHeading
  have hheading : (progress.step (headerLine part.heading)).heading = part.heading := by
    rw [heading_step, hline]
  have hsame : (progress.step (headerLine part.heading)).configuration =
      progress.configuration := by
    rw [configuration_step, hline]
  rw [Section.lines, List.foldl_cons, configuration_foldl_entries
    (hheading.symm ▸ hwritable.isHeading.ne_nil) hwritable.isEntry, hheading, hsame]
  rfl

theorem configuration_foldl_sections (progress : Progress)
    (hwritable : ∀ part ∈ sections, part.IsWritable) :
    ((sections.flatMap Section.lines).foldl step progress).configuration =
      progress.configuration.putAll (sections.flatMap settings) := by
  induction sections generalizing progress with
  | nil => rfl
  | cons part rest ih =>
    rw [List.flatMap_cons, List.foldl_append, ih _ fun other hother ↦
        hwritable other (List.mem_cons_of_mem part hother),
      configuration_foldl_lines progress (hwritable part (by simp)), List.flatMap_cons,
      putAll_append]

end Progress

/-! ### Texts of lines -/

/-- The lines of a text are those it was made of, and a last one that is blank when a line feed ends
the text or there are no lines. -/
theorem exists_linesOf_textOf {lines : List Text} (hlines : ∀ line ∈ lines, 10 ∉ line)
    {ending : Text} (hending : ending = [] ∨ ending = [10]) :
    ∃ blank, linesOf (textOf lines ++ ending) = lines ++ blank ∧ ∀ line ∈ blank, line = [] := by
  have hjoined : ∃ blank, linesOf (textOf lines) = lines ++ blank ∧ ∀ line ∈ blank, line = [] := by
    cases lines with
    | nil => exact ⟨[[]], rfl, by simp⟩
    | cons first rest =>
      refine ⟨[], ?_, by simp⟩
      rw [linesOf, textOf, Text.splitOn_intercalate_of_not_mem (by simp) hlines, List.append_nil]
  obtain ⟨blank, hblank, hempty⟩ := hjoined
  rcases hending with rfl | rfl
  · exact ⟨blank, by rw [List.append_nil, hblank], hempty⟩
  · refine ⟨blank ++ [[]], ?_, fun line hline ↦ ?_⟩
    · rw [linesOf, Text.splitOn_append, ← linesOf, hblank, List.append_assoc]
      rfl
    · rcases List.mem_append.mp hline with hmem | hlast
      · exact hempty line hmem
      · exact List.mem_singleton.mp hlast

theorem configuration_foldl_blank (progress : Progress) {lines : List Text}
    (hblank : ∀ line ∈ lines, line = []) :
    (lines.foldl Progress.step progress).configuration = progress.configuration := by
  induction lines generalizing progress with
  | nil => rfl
  | cons line rest ih =>
    obtain rfl := hblank line (by simp)
    rw [List.foldl_cons, ih _ fun other hother ↦ hblank other (List.mem_cons_of_mem _ hother)]
    rfl

theorem lineFeed_not_mem_lines (hwritable : ∀ part ∈ sections, part.IsWritable) :
    ∀ line ∈ sections.flatMap Section.lines, 10 ∉ line := by
  intro line hline
  obtain ⟨part, hpart, hwritten⟩ := List.mem_flatMap.mp hline
  rcases List.mem_cons.mp hwritten with rfl | hentry
  · simp [headerLine_eq, (hwritable part hpart).isHeading.lineFeed_not_mem]
  · obtain ⟨entry, hmem, rfl⟩ := List.mem_map.mp hentry
    obtain ⟨hkey, hvalue⟩ := (hwritable part hpart).isEntry entry hmem
    simp [entryLine_eq, hkey.lineFeed_not_mem, hvalue.lineFeed_not_mem]

/-- Loading written sections puts their settings. -/
theorem configuration_load_sections (hwritable : ∀ part ∈ sections, part.IsWritable)
    {ending : Text} (hending : ending = [] ∨ ending = [10]) (configuration : Configuration) :
    (configuration.load (textOf (sections.flatMap Section.lines) ++ ending)).1 =
      configuration.putAll (sections.flatMap settings) := by
  obtain ⟨blank, hlines, hblank⟩ :=
    exists_linesOf_textOf (lineFeed_not_mem_lines hwritable) hending
  show ((linesOf _).foldl Progress.step _).configuration = _
  rw [hlines, List.foldl_append, configuration_foldl_blank _ hblank,
    Progress.configuration_foldl_sections _ hwritable]

/-- A configuration is found again as it was written: for sections with different headings that can
be written, one after the other, with a line feed behind the last line or without. The headings are
those of the sections, in byte order; below each of them the keys are those of the section in their
order, and each key has its value. Nothing else is there. -/
theorem load_sections_spec (hnodup : (sections.map heading).Nodup)
    (hwritable : ∀ part ∈ sections, part.IsWritable) {ending : Text}
    (hending : ending = [] ∨ ending = [10]) :
    ∃ loaded, (empty.load (textOf (sections.flatMap Section.lines) ++ ending)).1 = loaded ∧
      loaded.headings.Perm (sections.map heading) ∧ Text.Increasing loaded.headings ∧
      (∀ heading, heading ∉ sections.map Section.heading → loaded.keys heading = []) ∧
      ∀ part ∈ sections, loaded.keys part.heading = part.entries.map Prod.fst ∧
        ∀ entry ∈ part.entries, ∀ default,
          loaded.text part.heading entry.1 default = entry.2 := by
  refine ⟨_, configuration_load_sections hwritable hending empty,
    headings_putAll_settings hnodup hwritable, Index.increasing _,
    fun heading ↦ keys_putAll_settings_eq_nil, fun part hpart ↦ ?_⟩
  have hkeys := (hwritable part hpart).nodup_keys
  refine ⟨keys_putAll_settings hnodup hpart hkeys, fun entry hentry default ↦ ?_⟩
  rw [text, value?_putAll_settings hnodup hpart hkeys hentry, Option.getD_some]

/-- Two sections with brackets, quotes and equals signs in them, and an empty value. -/
def greetings : List Section :=
  [⟨utf8 "b] [c", [(utf8 "say ;", utf8 "= 'x = y' ]"), (utf8 "a[0]", [])]⟩,
    ⟨utf8 "#a", [(utf8 "a[0]", utf8 "; no comment")]⟩]

theorem load_sections_spec_greetings :
    (greetings.map heading).Nodup ∧ (∀ part ∈ greetings, part.IsWritable) ∧
      ∃ loaded, (empty.load (textOf (greetings.flatMap Section.lines) ++ [10])).1 = loaded ∧
        loaded.headings.Perm [utf8 "b] [c", utf8 "#a"] ∧ Text.Increasing loaded.headings ∧
        loaded.keys (utf8 "b] [c") = [utf8 "say ;", utf8 "a[0]"] ∧
        loaded.text (utf8 "b] [c") (utf8 "say ;") [] = utf8 "= 'x = y' ]" := by
  have hnodup : (greetings.map heading).Nodup := by decide
  have hwritable : ∀ part ∈ greetings, part.IsWritable := by decide
  obtain ⟨loaded, hload, hheadings, hincreasing, -, hentries⟩ :=
    load_sections_spec hnodup hwritable (.inr rfl)
  obtain ⟨hkeys, hvalues⟩ := hentries _ List.mem_cons_self
  exact ⟨hnodup, hwritable, loaded, hload, hheadings, hincreasing, hkeys,
    hvalues _ List.mem_cons_self []⟩

end Configuration

end Metrology
