import Metrology.Configuration.Loading
import Metrology.Proofs.Configuration.Settings
import Metrology.Proofs.Text.Trimming

/-!
# What loading a configuration does

`Line.IsHeader` and `Line.IsEntry` say what a line is by the parts that it consists of, and
`Configuration.Accepts` which entries count: those with a key behind a header with a name, below the
latest header of the same text. Loading a text puts the settings of the accepted lines, one after
the other, and nothing else (`Configuration.exists_gives`). Everything that is stored has the form
that entries give it, however many texts were loaded (`Configuration.Loaded.isStored`).
-/

set_option autoImplicit false
set_option relaxedAutoImplicit false

namespace Metrology

/-! ### Lines -/

namespace Line

/-- A line is a text in brackets; trimmed, that text names the heading. -/
def IsHeader (line heading : Text) : Prop :=
  ∃ written, Text.trim line = 91 :: (written ++ [93]) ∧ Text.trim written = heading

/-- A line is neither a comment nor a header. The key stands before its first equals sign, the value
behind it and before the next `#`. -/
structure IsEntry (line key value : Text) : Prop where
  not_comment : ∀ byte ∈ (Text.trim line).head?, byte ≠ 35 ∧ byte ≠ 59
  not_header : ∀ heading, ¬ IsHeader line heading
  exists_parts : ∃ first second kept comment, Text.trim line = first ++ 61 :: second ∧
    61 ∉ first ∧ Text.trim first = key ∧ Text.trim second = kept ++ comment ∧ 35 ∉ kept ∧
    (∀ byte ∈ comment.head?, byte = 35) ∧ Text.trim kept = value

theorem bracketed_iff {content : Text} :
    content.head? = some 91 ∧ content.getLast? = some 93 ↔
      ∃ written, content = 91 :: (written ++ [93]) := by
  constructor
  · rintro ⟨hhead, hlast⟩
    obtain ⟨rest, rfl⟩ := List.head?_eq_some_iff.mp hhead
    obtain ⟨front, hfront⟩ := List.getLast?_eq_some_iff.mp hlast
    cases front with
    | nil => simp at hfront
    | cons byte written =>
      obtain ⟨_, rfl⟩ := List.cons.inj hfront
      exact ⟨written, rfl⟩
  · rintro ⟨written, rfl⟩
    simp [List.getLast?_cons]

theorem headingOf_bracketed (written : Text) :
    headingOf (91 :: (written ++ [93])) = Text.trim written := by
  rw [headingOf, List.drop_succ_cons, List.drop_zero, List.dropLast_concat]

/-- What is no comment is a header when it stands in brackets. -/
theorem ofContent_eq_header_iff {content heading : Text} :
    ofContent content = .header heading ↔
      ∃ written, content = 91 :: (written ++ [93]) ∧ Text.trim written = heading := by
  unfold ofContent
  split
  · next hbracketed =>
    obtain ⟨written, rfl⟩ := bracketed_iff.mp hbracketed
    rw [headingOf_bracketed, Line.header.injEq]
    constructor
    · exact fun hheading ↦ ⟨written, rfl, hheading⟩
    · rintro ⟨other, hother, hheading⟩
      obtain ⟨rfl, _⟩ := List.append_inj' (List.cons.inj hother).2 rfl
      exact hheading
  · next hbracketed =>
    constructor
    · intro hheader
      split at hheader <;> cases hheader
    · rintro ⟨written, hwritten, _⟩
      exact absurd (bracketed_iff.mpr ⟨written, hwritten⟩) hbracketed

theorem ofContent_eq_entry_iff {content key value : Text} :
    ofContent content = .entry key value ↔ (∀ written, content ≠ 91 :: (written ++ [93])) ∧
      ∃ first second, content = first ++ 61 :: second ∧ 61 ∉ first ∧ Text.trim first = key ∧
        valueOf second = value := by
  unfold ofContent
  split
  · next hbracketed =>
    obtain ⟨written, hwritten⟩ := bracketed_iff.mp hbracketed
    simp [hwritten]
  · next hbracketed =>
    rw [and_iff_right fun written hwritten ↦ hbracketed (bracketed_iff.mpr ⟨written, hwritten⟩)]
    constructor
    · intro hentry
      split at hentry
      · cases hentry
      · next first second hcut =>
        cases hentry
        obtain ⟨hcontent, hfirst⟩ := Text.cut?_eq_some_iff.mp hcut
        exact ⟨first, second, hcontent, hfirst, rfl, rfl⟩
    · rintro ⟨first, second, hcontent, hfirst, rfl, rfl⟩
      rw [Text.cut?_eq_some_iff.mpr ⟨hcontent, hfirst⟩]

theorem startsComment_iff {byte : UInt8} : startsComment byte = true ↔ byte = 35 ∨ byte = 59 := by
  simp [startsComment]

theorem ofText_eq_header_iff {line heading : Text} :
    ofText line = .header heading ↔ IsHeader line heading := by
  rw [ofText, IsHeader]
  cases Text.trim line with
  | nil => simp [ofTrimmed]
  | cons first rest =>
    rw [ofTrimmed]
    split
    · next hcomment =>
      constructor
      · intro hheader
        cases hheader
      · rintro ⟨written, hwritten, _⟩
        rw [(List.cons.inj hwritten).1] at hcomment
        exact absurd hcomment (by decide)
    · exact ofContent_eq_header_iff

theorem valueOf_eq_iff {written value : Text} :
    valueOf written = value ↔ ∃ kept comment, Text.trim written = kept ++ comment ∧ 35 ∉ kept ∧
      (∀ byte ∈ comment.head?, byte = 35) ∧ Text.trim kept = value := by
  constructor
  · rintro rfl
    obtain ⟨hkept, comment, hparts, hcomment⟩ := Text.before_eq_iff.mp rfl
    exact ⟨_, comment, hparts, hkept, hcomment, rfl⟩
  · rintro ⟨kept, comment, hparts, hkept, hcomment, rfl⟩
    rw [valueOf, Text.before_eq_iff.mpr ⟨hkept, comment, hparts, hcomment⟩]

theorem ofText_eq_entry_iff {line key value : Text} :
    ofText line = .entry key value ↔ IsEntry line key value := by
  have hentry : IsEntry line key value ↔
      (∀ byte ∈ (Text.trim line).head?, byte ≠ 35 ∧ byte ≠ 59) ∧
        (∀ written, Text.trim line ≠ 91 :: (written ++ [93])) ∧
        ∃ first second, Text.trim line = first ++ 61 :: second ∧ 61 ∉ first ∧
          Text.trim first = key ∧ valueOf second = value := by
    constructor
    · rintro ⟨hcomment, hheader, first, second, kept, comment, hline, hfirst, hkey, hvalue⟩
      exact ⟨hcomment, fun written hwritten ↦ hheader _ ⟨written, hwritten, rfl⟩, first, second,
        hline, hfirst, hkey, valueOf_eq_iff.mpr ⟨kept, comment, hvalue⟩⟩
    · rintro ⟨hcomment, hheader, first, second, hline, hfirst, hkey, hvalue⟩
      obtain ⟨kept, comment, hparts⟩ := valueOf_eq_iff.mp hvalue
      exact ⟨hcomment, fun heading ⟨written, hwritten, _⟩ ↦ hheader written hwritten, first, second,
        kept, comment, hline, hfirst, hkey, hparts⟩
  rw [hentry, ofText]
  cases Text.trim line with
  | nil => simp [ofTrimmed]
  | cons first rest =>
    have hcomment : (∀ byte ∈ (first :: rest).head?, byte ≠ 35 ∧ byte ≠ 59) ↔
        ¬ startsComment first = true := by
      simp [startsComment_iff]
    rw [ofTrimmed, hcomment]
    split
    · next hstarts => simp [hstarts]
    · next hstarts => rw [and_iff_right hstarts, ofContent_eq_entry_iff]

end Line

/-! ### The entries that count -/

namespace Configuration

/-- The latest header among lines names a heading. -/
def LatestHeading (lines : List Text) (heading : Text) : Prop :=
  ∃ earlier line later, lines = earlier ++ line :: later ∧ Line.IsHeader line heading ∧
    ∀ other ∈ later, ∀ name, ¬ Line.IsHeader other name

/-- A line behind others is an entry that counts. -/
structure Accepts (before : List Text) (line : Text) (setting : Setting) : Prop where
  latest : LatestHeading before setting.heading
  heading_ne_nil : setting.heading ≠ []
  entry : Line.IsEntry line setting.key setting.value
  key_ne_nil : setting.key ≠ []

/-- Lines behind others give settings: those of the lines that are accepted, in their order. -/
inductive Gives : List Text → List Text → List Setting → Prop
  | done (before : List Text) : Gives before [] []
  | accepted {before lines : List Text} {line : Text} {setting : Setting}
      {settings : List Setting} (accepts : Accepts before line setting)
      (rest : Gives (before ++ [line]) lines settings) :
      Gives before (line :: lines) (setting :: settings)
  | skipped {before lines : List Text} {line : Text} {settings : List Setting}
      (refused : ∀ setting, ¬ Accepts before line setting)
      (rest : Gives (before ++ [line]) lines settings) : Gives before (line :: lines) settings

/-- A line is the latest header, or it is none and the latest one before it stays. -/
theorem latestHeading_append_iff {before : List Text} {line heading : Text} :
    LatestHeading (before ++ [line]) heading ↔ Line.IsHeader line heading ∨
      (∀ name, ¬ Line.IsHeader line name) ∧ LatestHeading before heading := by
  constructor
  · rintro ⟨earlier, header, later, hlines, hheader, hlater⟩
    rcases List.eq_nil_or_concat later with rfl | ⟨middle, last, rfl⟩
    · obtain ⟨_, hlast⟩ := List.append_inj' hlines rfl
      cases hlast
      exact .inl hheader
    · rw [List.concat_eq_append, ← List.cons_append, ← List.append_assoc] at hlines
      obtain ⟨rfl, hlast⟩ := List.append_inj' hlines rfl
      cases hlast
      exact .inr ⟨hlater line (by simp), earlier, header, middle, rfl, hheader,
        fun other hother ↦ hlater other (by simp [hother])⟩
  · rintro (hheader | ⟨hnone, earlier, header, later, rfl, hheader, hlater⟩)
    · exact ⟨before, line, [], rfl, hheader, by simp⟩
    · refine ⟨earlier, header, later ++ [line], by simp, hheader, fun other hother ↦ ?_⟩
      rcases List.mem_append.mp hother with hmem | hmem
      · exact hlater other hmem
      · rwa [List.mem_singleton.mp hmem]

/-! ### Reading one line after the other -/

namespace Progress

/-- The heading of a state is that of the lines read so far. -/
def Follows (progress : Progress) (before : List Text) : Prop :=
  ∀ heading, heading ≠ [] → (progress.heading = heading ↔ LatestHeading before heading)

variable {progress : Progress} {before : List Text}

/-- A line that is no header keeps the heading. -/
theorem heading_step (progress : Progress) (line : Text) :
    (progress.step line).heading =
      match Line.ofText line with
      | .header heading => heading
      | _ => progress.heading := by
  unfold step take
  cases Line.ofText line with
  | entry key value =>
    dsimp only
    split
    · rfl
    · split
      · rfl
      · unfold accept
        split <;> rfl
  | _ => rfl

/-- An entry with heading and key is put; every other line keeps the configuration. -/
theorem configuration_step (progress : Progress) (line : Text) :
    (progress.step line).configuration =
      match Line.ofText line with
      | .entry key value =>
        if progress.heading = [] ∨ key = [] then progress.configuration
        else progress.configuration.put ⟨progress.heading, key, value⟩
      | _ => progress.configuration := by
  unfold step take
  cases Line.ofText line with
  | entry key value =>
    dsimp only
    by_cases hheading : progress.heading = []
    · rw [if_pos hheading, if_pos (.inl hheading)]
      rfl
    · rw [if_neg hheading]
      by_cases hkey : key = []
      · rw [if_pos hkey, if_pos (.inr hkey)]
        rfl
      · rw [if_neg hkey, if_neg (not_or.mpr ⟨hheading, hkey⟩), accept]
        split <;> rfl
  | _ => rfl

theorem Follows.step (hfollows : progress.Follows before) (line : Text) :
    (progress.step line).Follows (before ++ [line]) := by
  intro heading hheading
  rw [heading_step, latestHeading_append_iff]
  simp only [← Line.ofText_eq_header_iff]
  cases Line.ofText line with
  | header other => simp
  | _ => simpa using hfollows heading hheading

/-- A line that is accepted has its setting put. -/
theorem Follows.accepts_iff (hfollows : progress.Follows before) {line : Text}
    {setting : Setting} :
    Accepts before line setting ↔
      Line.ofText line = .entry setting.key setting.value ∧
        setting.heading = progress.heading ∧ setting.heading ≠ [] ∧ setting.key ≠ [] := by
  constructor
  · rintro ⟨hlatest, hheading, hentry, hkey⟩
    exact ⟨Line.ofText_eq_entry_iff.mpr hentry, ((hfollows _ hheading).mpr hlatest).symm, hheading,
      hkey⟩
  · rintro ⟨hentry, hprogress, hheading, hkey⟩
    exact ⟨(hfollows _ hheading).mp hprogress.symm, hheading, Line.ofText_eq_entry_iff.mp hentry,
      hkey⟩

theorem Follows.step_cases (hfollows : progress.Follows before) (line : Text) :
    (∃ setting, Accepts before line setting ∧
        (progress.step line).configuration = progress.configuration.put setting) ∨
      (∀ setting, ¬ Accepts before line setting) ∧
        (progress.step line).configuration = progress.configuration := by
  simp only [hfollows.accepts_iff, configuration_step]
  cases hline : Line.ofText line with
  | entry key value =>
    dsimp only
    split
    · next hempty =>
      refine .inr ⟨?_, rfl⟩
      rintro ⟨heading, other, written⟩ ⟨hentry, rfl, hheading, hkey⟩
      cases hentry
      exact hempty.elim hheading hkey
    · next hsome =>
      obtain ⟨hheading, hkey⟩ := not_or.mp hsome
      exact .inl ⟨⟨progress.heading, key, value⟩, ⟨rfl, rfl, hheading, hkey⟩, rfl⟩
  | _ => exact .inr ⟨by simp, rfl⟩

end Progress

/-- Reading lines puts the settings that they give. -/
theorem exists_gives {progress : Progress} {before : List Text}
    (hfollows : progress.Follows before) (lines : List Text) :
    ∃ accepted, Gives before lines accepted ∧
      (lines.foldl Progress.step progress).configuration =
        progress.configuration.putAll accepted := by
  induction lines generalizing progress before with
  | nil => exact ⟨[], .done before, rfl⟩
  | cons line rest ih =>
    obtain ⟨accepted, hgives, hrest⟩ := ih (hfollows.step line)
    rw [List.foldl_cons, hrest]
    rcases hfollows.step_cases line with ⟨setting, haccepts, hput⟩ | ⟨hrefused, hsame⟩
    · exact ⟨setting :: accepted, .accepted haccepts hgives, by rw [hput]; rfl⟩
    · exact ⟨accepted, .skipped hrefused hgives, by rw [hsame]⟩

theorem exists_gives_load (configuration : Configuration) (text : Text) :
    ∃ accepted, Gives [] (linesOf text) accepted ∧
      (configuration.load text).1 = configuration.putAll accepted := by
  refine @exists_gives ⟨configuration, [], 0, []⟩ [] ?_ (linesOf text)
  intro heading hheading
  constructor
  · intro hempty
    exact absurd hempty.symm hheading
  · rintro ⟨earlier, line, later, hlines, _⟩
    simp at hlines

/-! ### What is stored -/

/-- A setting has the form of an accepted entry: heading, key and value are trimmed, heading and key
are not empty, and neither an equals sign is left in the key nor a `#` in the value. -/
structure IsStored (setting : Setting) : Prop where
  heading_ne_nil : setting.heading ≠ []
  heading_trimmed : setting.heading.IsTrimmed
  key_ne_nil : setting.key ≠ []
  key_trimmed : setting.key.IsTrimmed
  not_mem_key : 61 ∉ setting.key
  value_trimmed : setting.value.IsTrimmed
  not_mem_value : 35 ∉ setting.value

/-- A configuration that comes from loading texts, one after the other. -/
inductive Loaded : Configuration → Prop
  | empty : Loaded .empty
  | load {configuration : Configuration} (loaded : Loaded configuration) (text : Text) :
      Loaded (configuration.load text).1

theorem Accepts.isStored {before : List Text} {line : Text} {setting : Setting}
    (haccepts : Accepts before line setting) : IsStored setting := by
  obtain ⟨heading, key, value⟩ := setting
  obtain ⟨⟨_, _, _, _, ⟨written, _, rfl⟩, _⟩, hheading, hentry, hkey⟩ := haccepts
  obtain ⟨first, second, kept, comment, _, hfirst, rfl, _, hkept, _, rfl⟩ := hentry.exists_parts
  exact ⟨hheading, Text.isTrimmed_trim _, hkey, Text.isTrimmed_trim _,
    fun hmem ↦ hfirst (Text.mem_of_mem_trim hmem), Text.isTrimmed_trim _,
    fun hmem ↦ hkept (Text.mem_of_mem_trim hmem)⟩

theorem Gives.isStored {before lines : List Text} {accepted : List Setting}
    (hgives : Gives before lines accepted) : ∀ setting ∈ accepted, IsStored setting := by
  induction hgives with
  | done => simp
  | accepted haccepts _ ih =>
    intro setting hsetting
    rcases List.mem_cons.mp hsetting with rfl | hrest
    · exact haccepts.isStored
    · exact ih setting hrest
  | skipped _ _ ih => exact ih

/-- Values and keys stay together, however many texts are loaded. -/
theorem Loaded.agrees {configuration : Configuration} (hloaded : Loaded configuration) :
    configuration.Agrees := by
  induction hloaded with
  | empty => exact agrees_empty
  | @load configuration _ text ih =>
    obtain ⟨accepted, _, hload⟩ := exists_gives_load configuration text
    exact hload ▸ ih.putAll accepted

theorem Loaded.isStored {configuration : Configuration} (hloaded : Loaded configuration)
    {heading key value : Text} (hvalue : configuration.value? heading key = some value) :
    IsStored ⟨heading, key, value⟩ := by
  induction hloaded with
  | empty => cases hvalue
  | @load configuration _ text ih =>
    obtain ⟨accepted, hgives, hload⟩ := exists_gives_load configuration text
    rw [hload] at hvalue
    exact (of_value?_putAll_eq_some hvalue).elim (hgives.isStored _) ih

/-- For every configuration that comes from loading texts, and every text. The lines of the text
give settings, namely those of its accepted entries. Afterwards the value at a place is that of the
last of these there, or the value before when there is none; the keys of a heading are those before,
followed by the new ones in the order in which they are first given, and none of them twice. There
is a value where there is a key, and a heading where there are keys; the headings are listed in byte
order. All that is stored has the form of an accepted entry. -/
theorem Loaded.load_spec {configuration : Configuration} (hloaded : Loaded configuration)
    (text : Text) :
    ∃ accepted, Gives [] (linesOf text) accepted ∧
      (∀ heading key default, (configuration.load text).1.text heading key default =
        ((Setting.lastAt? accepted heading key).map Setting.value).getD
          (configuration.text heading key default)) ∧
      (∀ heading, (configuration.load text).1.keys heading = configuration.keys heading ++
        Setting.newKeys accepted heading (configuration.keys heading)) ∧
      (∀ heading, ((configuration.load text).1.keys heading).Nodup) ∧
      (∀ heading key, (configuration.load text).1.hasKey heading key = true ↔
        key ∈ (configuration.load text).1.keys heading) ∧
      (∀ heading, (configuration.load text).1.hasHeading heading = true ↔
        (configuration.load text).1.keys heading ≠ []) ∧
      Text.Increasing (configuration.load text).1.headings ∧
      (∀ heading, heading ∈ (configuration.load text).1.headings ↔
        (configuration.load text).1.keys heading ≠ []) ∧
      ∀ heading key value, (configuration.load text).1.value? heading key = some value →
        IsStored ⟨heading, key, value⟩ := by
  obtain ⟨accepted, hgives, hload⟩ := exists_gives_load configuration text
  have hafter := hloaded.load text
  refine ⟨accepted, hgives, fun heading key default ↦ ?_, fun heading ↦ ?_,
    hafter.agrees.nodup_keys, hafter.agrees.hasKey_iff, hafter.agrees.hasHeading_iff,
    Index.increasing _, fun heading ↦ hafter.agrees.mem_headings_iff,
    fun heading key value ↦ hafter.isStored⟩
  · rw [hload, Configuration.text, value?_putAll, Option.getD_or]
    rfl
  · rw [hload, hloaded.agrees.keys_putAll]

/-- A text that gives one key twice, a comment and a line that is below no heading. -/
def twice : Text :=
  utf8 "a = 0\n[run]\na = 1 # first\n; a = 3\na = 2\nb = x = y"

theorem load_spec_twice :
    Loaded empty ∧ ∃ accepted, Gives [] (linesOf twice) accepted ∧
      (empty.load twice).1.text (utf8 "run") (utf8 "a") [] =
        ((Setting.lastAt? accepted (utf8 "run") (utf8 "a")).map Setting.value).getD [] ∧
      (empty.load twice).1.text (utf8 "run") (utf8 "a") [] = utf8 "2" ∧
      (empty.load twice).1.keys (utf8 "run") = [utf8 "a", utf8 "b"] := by
  obtain ⟨accepted, hgives, hvalue, _⟩ := Loaded.empty.load_spec twice
  exact ⟨.empty, accepted, hgives, hvalue (utf8 "run") (utf8 "a") [], by decide, by decide⟩

end Configuration

end Metrology
