import Metrology.Configuration.Access

/-!
# Settings put one after the other

Putting settings into a configuration leaves at each place the value of the last of them there, or
the value that was there before (`value?_putAll`). A configuration keeps its values and the order of
its keys apart; `Configuration.Agrees` says that they belong together, and every setting keeps it
(`Agrees.put`). Then the keys of a heading stay in their order, and the new ones come behind them in
the order in which they are first put (`Agrees.keys_putAll`).
-/

set_option autoImplicit false
set_option relaxedAutoImplicit false

namespace Metrology

namespace Setting

/-- The last of some settings that is at a place. -/
def lastAt? (settings : List Setting) (heading key : Text) : Option Setting :=
  (settings.filter fun setting ↦ setting.IsAt heading key).getLast?

/-- The keys of settings below a heading that are not known, each where it comes first. -/
def newKeys (settings : List Setting) (heading : Text) (known : List Text) : List Text :=
  (((settings.filter fun setting ↦ setting.heading = heading).map Setting.key).filter
    fun key ↦ key ∉ known).eraseDups

theorem lastAt?_cons (setting : Setting) (rest : List Setting) (heading key : Text) :
    lastAt? (setting :: rest) heading key =
      (lastAt? rest heading key).or (if setting.IsAt heading key then some setting else none) := by
  rw [lastAt?, lastAt?]
  by_cases hat : setting.IsAt heading key
  · rw [List.filter_cons_of_pos (by simpa using hat), if_pos hat, List.getLast?_cons]
    cases (rest.filter fun setting ↦ setting.IsAt heading key).getLast? <;> rfl
  · rw [List.filter_cons_of_neg (by simpa using hat), if_neg hat, Option.or_none]

theorem of_lastAt?_eq_some {settings : List Setting} {heading key : Text} {setting : Setting}
    (hlast : lastAt? settings heading key = some setting) :
    setting ∈ settings ∧ setting.IsAt heading key := by
  obtain ⟨hmem, hat⟩ := List.mem_filter.mp (List.mem_of_getLast? hlast)
  exact ⟨hmem, of_decide_eq_true hat⟩

theorem newKeys_cons (setting : Setting) (rest : List Setting) (heading : Text)
    (known : List Text) :
    newKeys (setting :: rest) heading known =
      if setting.heading = heading ∧ setting.key ∉ known then
        setting.key :: newKeys rest heading (known ++ [setting.key])
      else newKeys rest heading known := by
  rw [newKeys, newKeys, newKeys]
  by_cases hheading : setting.heading = heading
  · rw [List.filter_cons_of_pos (by simpa using hheading), List.map_cons]
    by_cases hkey : setting.key ∈ known
    · rw [List.filter_cons_of_neg (by simpa using hkey), if_neg (fun hnew ↦ hnew.2 hkey)]
    · rw [List.filter_cons_of_pos (by simpa using hkey), if_pos ⟨hheading, hkey⟩,
        List.eraseDups_cons, List.filter_filter]
      congr 3
      funext key
      by_cases heq : key = setting.key <;> simp [heq]
  · rw [List.filter_cons_of_neg (by simpa using hheading), if_neg (fun hnew ↦ hheading hnew.1)]

end Setting

namespace Configuration

/-- Puts settings one after the other. -/
def putAll (configuration : Configuration) (settings : List Setting) : Configuration :=
  settings.foldl put configuration

/-- The values of a configuration belong to the keys that it lists, each of them once. -/
structure Agrees (configuration : Configuration) : Prop where
  hasKey_iff (heading key : Text) :
    configuration.hasKey heading key = true ↔ key ∈ configuration.keys heading
  hasHeading_iff (heading : Text) :
    configuration.hasHeading heading = true ↔ configuration.keys heading ≠ []
  nodup_keys (heading : Text) : (configuration.keys heading).Nodup

variable {configuration : Configuration}

theorem agrees_empty : empty.Agrees where
  hasKey_iff heading key := by simp [hasKey, value?, keys, empty]
  hasHeading_iff heading := by simp [hasHeading, keys, empty]
  nodup_keys heading := by simp [keys, empty]

theorem nodup_headings (configuration : Configuration) : configuration.headings.Nodup :=
  Text.nodup_of_increasing configuration.values.increasing

/-! ### One setting -/

namespace Agrees

theorem hasKey_eq_false_iff (hagrees : configuration.Agrees) (heading key : Text) :
    configuration.hasKey heading key = false ↔ key ∉ configuration.keys heading := by
  rw [← hagrees.hasKey_iff, Bool.not_eq_true]

theorem mem_headings_iff (hagrees : configuration.Agrees) {heading : Text} :
    heading ∈ configuration.headings ↔ configuration.keys heading ≠ [] := by
  rw [← hagrees.hasHeading_iff, hasHeading, Option.isSome_iff_exists]
  exact Index.mem_keys_iff

/-- A setting adds its key behind the others, unless it is there. -/
theorem keys_put (hagrees : configuration.Agrees) (setting : Setting) (heading : Text) :
    (configuration.put setting).keys heading = configuration.keys heading ++
      if setting.heading = heading ∧ setting.key ∉ configuration.keys heading then [setting.key]
      else [] := by
  rw [Configuration.keys_put]
  simp only [hagrees.hasKey_eq_false_iff]
  by_cases hheading : setting.heading = heading
  · rw [hheading]
  · rw [if_neg fun hboth ↦ hheading hboth.1, if_neg fun hboth ↦ hheading hboth.1]

theorem mem_keys_put_iff (hagrees : configuration.Agrees) {setting : Setting}
    {heading key : Text} :
    key ∈ (configuration.put setting).keys heading ↔
      setting.IsAt heading key ∨ key ∈ configuration.keys heading := by
  rw [hagrees.keys_put, List.mem_append, Setting.IsAt]
  split
  · next hnew => rw [List.mem_singleton, and_iff_right hnew.1, eq_comm, Or.comm]
  · next hold =>
    have hknown : setting.heading = heading ∧ setting.key = key →
        key ∈ configuration.keys heading := by
      rintro ⟨hheading, rfl⟩
      exact Decidable.byContradiction fun hnew ↦ hold ⟨hheading, hnew⟩
    rw [or_iff_left List.not_mem_nil, or_iff_right_of_imp hknown]

/-- A setting keeps values and keys together. -/
theorem put (hagrees : configuration.Agrees) (setting : Setting) :
    (configuration.put setting).Agrees where
  hasKey_iff heading key := by
    rw [hagrees.mem_keys_put_iff, ← hagrees.hasKey_iff, hasKey, value?_put]
    by_cases hat : setting.IsAt heading key
    · simp [hat]
    · simp [hat, hasKey]
  hasHeading_iff heading := by
    rw [hasHeading_put, hagrees.hasHeading_iff]
    constructor
    · rintro (hheading | hkeys)
      · exact List.ne_nil_of_mem (hagrees.mem_keys_put_iff.mpr (.inl ⟨hheading, rfl⟩))
      · obtain ⟨key, hkey⟩ := List.exists_mem_of_ne_nil _ hkeys
        exact List.ne_nil_of_mem (hagrees.mem_keys_put_iff.mpr (.inr hkey))
    · intro hkeys
      obtain ⟨key, hkey⟩ := List.exists_mem_of_ne_nil _ hkeys
      rcases hagrees.mem_keys_put_iff.mp hkey with hat | hold
      · exact .inl hat.1
      · exact .inr (List.ne_nil_of_mem hold)
  nodup_keys heading := by
    rw [hagrees.keys_put]
    split
    · next hnew =>
      exact List.nodup_append.mpr ⟨hagrees.nodup_keys heading, List.pairwise_singleton _ _,
        fun key hkey other hother heq ↦ hnew.2 (List.mem_singleton.mp hother ▸ heq ▸ hkey)⟩
    · rw [List.append_nil]
      exact hagrees.nodup_keys heading

end Agrees

/-! ### All settings -/

theorem putAll_append (configuration : Configuration) (first second : List Setting) :
    configuration.putAll (first ++ second) = (configuration.putAll first).putAll second :=
  List.foldl_append

/-- The last setting at a place counts; without one the value stays. -/
theorem value?_putAll (configuration : Configuration) (settings : List Setting)
    (heading key : Text) :
    (configuration.putAll settings).value? heading key =
      ((Setting.lastAt? settings heading key).map Setting.value).or
        (configuration.value? heading key) := by
  induction settings generalizing configuration with
  | nil => rfl
  | cons setting rest ih =>
    rw [putAll, List.foldl_cons, ← putAll, ih, value?_put, Setting.lastAt?_cons]
    cases Setting.lastAt? rest heading key with
    | some last => rfl
    | none => split <;> rfl

/-- A value is that of a setting that was put, or one that was there. -/
theorem of_value?_putAll_eq_some {settings : List Setting} {heading key value : Text}
    (hvalue : (configuration.putAll settings).value? heading key = some value) :
    ⟨heading, key, value⟩ ∈ settings ∨ configuration.value? heading key = some value := by
  rw [value?_putAll] at hvalue
  cases hlast : Setting.lastAt? settings heading key with
  | none =>
    rw [hlast] at hvalue
    exact .inr hvalue
  | some setting =>
    obtain ⟨hmem, rfl, rfl⟩ := Setting.of_lastAt?_eq_some hlast
    rw [hlast] at hvalue
    cases hvalue
    exact .inl hmem

theorem Agrees.putAll (hagrees : configuration.Agrees) (settings : List Setting) :
    (configuration.putAll settings).Agrees := by
  induction settings generalizing configuration with
  | nil => exact hagrees
  | cons setting rest ih => exact ih (hagrees.put setting)

/-- New keys come behind those there are, in the order in which they are first put. -/
theorem Agrees.keys_putAll (hagrees : configuration.Agrees) (settings : List Setting)
    (heading : Text) :
    (configuration.putAll settings).keys heading = configuration.keys heading ++
      Setting.newKeys settings heading (configuration.keys heading) := by
  induction settings generalizing configuration with
  | nil => exact (List.append_nil _).symm
  | cons setting rest ih =>
    rw [Configuration.putAll, List.foldl_cons, ← Configuration.putAll, ih (hagrees.put setting),
      hagrees.keys_put, Setting.newKeys_cons]
    split
    · rw [List.append_assoc, List.singleton_append]
    · rw [List.append_nil]

end Configuration

end Metrology
