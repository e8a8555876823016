import Metrology.Text.Index

/-!
# Configurations

A configuration holds settings: a value under a key below a heading. There is one value for a
heading and key (`Configuration.put` replaces it). The order in which the keys of a heading were
first given is kept apart from the values. Headings are listed in byte order.
-/

set_option autoImplicit false
set_option relaxedAutoImplicit false

namespace Metrology

/-- A value under a key below a heading. -/
structure Setting where
  heading : Text
  key : Text
  value : Text
  deriving DecidableEq

/-- The place of a setting. -/
def Setting.IsAt (setting : Setting) (heading key : Text) : Prop :=
  setting.heading = heading ∧ setting.key = key

instance (setting : Setting) (heading key : Text) : Decidable (setting.IsAt heading key) :=
  inferInstanceAs (Decidable (_ ∧ _))

/-- Settings, with the order of the keys below each heading. -/
structure Configuration where
  /-- The values below each heading, under their keys. -/
  values : Index (Index Text)
  /-- The keys below each heading, in the order in which they were first given. -/
  keyOrder : Index (List Text)
  deriving DecidableEq

namespace Configuration

/-- The configuration without settings. -/
def empty : Configuration :=
  ⟨.empty, .empty⟩

/-- The value at a place. -/
def value? (configuration : Configuration) (heading key : Text) : Option Text :=
  (configuration.values.find? heading).bind fun values ↦ values.find? key

/-- There is a value at a place. -/
def hasKey (configuration : Configuration) (heading key : Text) : Bool :=
  (configuration.value? heading key).isSome

/-- The keys below a heading, in the order in which they were first given. -/
def keys (configuration : Configuration) (heading : Text) : List Text :=
  (configuration.keyOrder.find? heading).getD []

/-- There are values below a heading. -/
def hasHeading (configuration : Configuration) (heading : Text) : Bool :=
  (configuration.values.find? heading).isSome

/-- The headings with values, in byte order. -/
def headings (configuration : Configuration) : List Text :=
  configuration.values.keys

/-- The values below a heading, none when it is not there. -/
def valuesBelow (configuration : Configuration) (heading : Text) : Index Text :=
  (configuration.values.find? heading).getD .empty

/-- Gives a place a value, in place of the value that it had. A new key comes behind the others. -/
def put (configuration : Configuration) (setting : Setting) : Configuration where
  values := configuration.values.put setting.heading
    ((configuration.valuesBelow setting.heading).put setting.key setting.value)
  keyOrder :=
    if configuration.hasKey setting.heading setting.key then configuration.keyOrder
    else configuration.keyOrder.append setting.heading setting.key

theorem find?_valuesBelow (configuration : Configuration) (heading key : Text) :
    (configuration.valuesBelow heading).find? key = configuration.value? heading key := by
  rw [valuesBelow, value?]
  cases configuration.values.find? heading <;> rfl

/-- A setting that was put is found at its place, and nothing changes elsewhere. -/
theorem value?_put (configuration : Configuration) (setting : Setting) (heading key : Text) :
    (configuration.put setting).value? heading key =
      if setting.IsAt heading key then some setting.value
      else configuration.value? heading key := by
  rw [value?, put]
  by_cases hheading : heading = setting.heading
  · subst hheading
    rw [Index.find?_put_self, Option.bind_some, Index.find?_put, find?_valuesBelow]
    by_cases hkey : key = setting.key
    · rw [if_pos hkey, if_pos ⟨rfl, hkey.symm⟩]
    · rw [if_neg hkey, if_neg fun hat ↦ hkey hat.2.symm]
  · rw [Index.find?_put_of_ne _ _ hheading, if_neg fun hat ↦ hheading hat.1.symm, value?]

/-- The heading of a setting that was put is there, and no other one is new. -/
theorem hasHeading_put (configuration : Configuration) (setting : Setting) (heading : Text) :
    (configuration.put setting).hasHeading heading = true ↔
      setting.heading = heading ∨ configuration.hasHeading heading = true := by
  rw [hasHeading, put, Index.find?_put]
  by_cases hheading : heading = setting.heading
  · simp [hheading]
  · simp [hheading, Ne.symm hheading, hasHeading]

/-- A setting that was put adds its key behind the others when there was no value at its place. -/
theorem keys_put (configuration : Configuration) (setting : Setting) (heading : Text) :
    (configuration.put setting).keys heading = configuration.keys heading ++
      if setting.heading = heading ∧ configuration.hasKey setting.heading setting.key = false
      then [setting.key] else [] := by
  rw [keys, put]
  by_cases hkey : configuration.hasKey setting.heading setting.key = true
  · simp [hkey, keys]
  · by_cases hheading : heading = setting.heading
    · subst hheading
      simp [hkey, Index.append, keys]
    · simp [hkey, Index.append, Index.find?_put, hheading, Ne.symm hheading, keys]

end Configuration

end Metrology
