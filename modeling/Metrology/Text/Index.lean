import Metrology.Text.Order

/-!
# Finite maps from texts

An index holds values under texts, its keys, in byte order of the keys. `put` gives a key a value,
in place of the value that it had, and leaves all other keys alone (`find?_put`). `append` extends
the list that stands under a key.
-/

set_option autoImplicit false
set_option relaxedAutoImplicit false

namespace Metrology

/-- Values under texts, in byte order of the texts. -/
structure Index (α : Type) where
  /-- The keys with their values. -/
  entries : List (Text × α)
  increasing : Text.Increasing (entries.map Prod.fst)
  deriving DecidableEq

namespace Index

variable {α : Type}

/-- The index without keys. -/
def empty : Index α where
  entries := []
  increasing := List.Pairwise.nil

/-- The keys, in byte order. -/
def keys (index : Index α) : List Text :=
  index.entries.map Prod.fst

/-- The value under a key. -/
def find? (index : Index α) (key : Text) : Option α :=
  index.entries.lookup key

/-- Entries in which a key has a value, at the place of the key in byte order. -/
def putEntry (key : Text) (value : α) : List (Text × α) → List (Text × α)
  | [] => [(key, value)]
  | first :: rest =>
    if key < first.1 then (key, value) :: first :: rest
    else if key = first.1 then (key, value) :: rest
    else first :: putEntry key value rest

theorem map_fst_putEntry (key : Text) (value : α) (entries : List (Text × α)) :
    (putEntry key value entries).map Prod.fst = Text.insertSorted key (entries.map Prod.fst) := by
  induction entries with
  | nil => rfl
  | cons first rest ih =>
    unfold putEntry
    rw [List.map_cons, Text.insertSorted]
    split
    · rfl
    · split
      · next heq => rw [List.map_cons, heq]
      · rw [List.map_cons, ih]

/-- Gives a key a value, in place of the value that it had. -/
def put (index : Index α) (key : Text) (value : α) : Index α where
  entries := putEntry key value index.entries
  increasing := by
    rw [map_fst_putEntry]
    exact Text.pairwise_insertSorted index.increasing

/-- Appends a value to the list under a key, which is empty when there is none. -/
def append (index : Index (List α)) (key : Text) (value : α) : Index (List α) :=
  index.put key ((index.find? key).getD [] ++ [value])

@[simp] theorem find?_empty (key : Text) : (empty : Index α).find? key = none := rfl

theorem lookup_cons_eq (key other : Text) (value : α) (rest : List (Text × α)) :
    ((key, value) :: rest).lookup other =
      if other = key then some value else rest.lookup other := by
  rw [List.lookup_cons]
  by_cases heq : other = key
  · rw [heq, beq_self_eq_true, if_pos rfl]
  · rw [beq_eq_false_iff_ne.mpr heq, if_neg heq]

theorem lookup_putEntry (key other : Text) (value : α) (entries : List (Text × α)) :
    (putEntry key value entries).lookup other =
      if other = key then some value else entries.lookup other := by
  induction entries with
  | nil => exact lookup_cons_eq key other value []
  | cons first rest ih =>
    obtain ⟨place, present⟩ := first
    unfold putEntry
    split
    · exact lookup_cons_eq key other value _
    · split
      · next heq =>
        subst heq
        rw [lookup_cons_eq, lookup_cons_eq]
        split <;> rfl
      · next hne =>
        rw [lookup_cons_eq, lookup_cons_eq, ih]
        by_cases heq : other = place
        · simp [heq, Ne.symm hne]
        · simp [heq]

/-- The value that a key was given is found under it, and nothing changes under other keys. -/
theorem find?_put (index : Index α) (key other : Text) (value : α) :
    (index.put key value).find? other = if other = key then some value else index.find? other :=
  lookup_putEntry key other value index.entries

@[simp] theorem find?_put_self (index : Index α) (key : Text) (value : α) :
    (index.put key value).find? key = some value := by
  rw [find?_put, if_pos rfl]

theorem find?_put_of_ne (index : Index α) {key other : Text} (value : α) (hne : other ≠ key) :
    (index.put key value).find? other = index.find? other := by
  rw [find?_put, if_neg hne]

/-- A free key that is given a value adds that value and takes none away. -/
theorem find?_put_eq_some_iff {index : Index α} {key other : Text} {value found : α}
    (hfree : index.find? key = none) :
    (index.put key value).find? other = some found ↔
      index.find? other = some found ∨ value = found ∧ other = key := by
  rw [find?_put]
  by_cases heq : other = key
  · rw [heq, if_pos rfl, hfree]
    simp
  · simp [heq]

/-- The keys are the texts under which there is a value. -/
theorem mem_keys_iff {index : Index α} {key : Text} :
    key ∈ index.keys ↔ ∃ value, index.find? key = some value := by
  rw [keys, find?]
  generalize index.entries = entries
  induction entries with
  | nil => simp
  | cons first rest ih =>
    obtain ⟨place, value⟩ := first
    rw [List.map_cons, List.mem_cons, lookup_cons_eq, ih]
    by_cases heq : key = place <;> simp [heq]

/-- The entries are the keys with what is found under them. -/
theorem map_entries (index : Index α) :
    index.entries.map (fun entry ↦ (entry.1, some entry.2)) =
      index.keys.map fun key ↦ (key, index.find? key) := by
  rw [keys, List.map_map]
  refine List.map_congr_left fun entry hentry ↦ ?_
  rw [Function.comp_apply, find?, Text.lookup_of_increasing index.increasing hentry]

/-- Indices are equal when every key has the same value in both, or none. -/
theorem ext_find? {first second : Index α}
    (hfind : ∀ key, first.find? key = second.find? key) : first = second := by
  have hkeys : first.keys = second.keys :=
    Text.eq_of_mem_iff first.increasing second.increasing fun key ↦ by
      show key ∈ first.keys ↔ key ∈ second.keys
      rw [mem_keys_iff, mem_keys_iff, hfind]
  have hmap := first.map_entries
  simp only [hkeys, hfind] at hmap
  have hentries : first.entries = second.entries := by
    refine (List.map_inj_right ?_).mp (hmap.trans second.map_entries.symm)
    rintro ⟨key, value⟩ ⟨other, found⟩ heq
    cases heq
    rfl
  cases first
  cases second
  cases hentries
  rfl

end Index

end Metrology
