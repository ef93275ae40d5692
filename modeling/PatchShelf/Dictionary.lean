/-
Module: PatchShelf.Dictionary
Purpose: Finite maps that remember the order in which their keys came.
Main exports:
  Dictionary, Dictionary.get?, Dictionary.insert, Dictionary.erase,
  Dictionary.filter, Dictionary.ofList
-/

/-!
A dictionary is a list of pairs with distinct keys.  A new key goes to the end,
a known key keeps its place and gets the new value.  The view of a dictionary is
the partial function `get?`; each operation is described by what it does to it.
-/

namespace PatchShelf

/-- A finite map in order of first insertion. -/
structure Dictionary (κ α : Type) where
  pairs : List (κ × α)
  distinct : (pairs.map Prod.fst).Nodup
deriving Repr, DecidableEq

namespace Dictionary

variable {κ α : Type}

/-- The dictionary without keys. -/
def empty : Dictionary κ α :=
  ⟨[], List.nodup_nil⟩

instance : Inhabited (Dictionary κ α) := ⟨empty⟩

/-- The keys, in order. -/
def keys (dictionary : Dictionary κ α) : List κ :=
  dictionary.pairs.map Prod.fst

/-- The number of keys. -/
def size (dictionary : Dictionary κ α) : Nat :=
  dictionary.pairs.length

/-- The pairs that satisfy a test. -/
def filter (test : κ × α → Bool) (dictionary : Dictionary κ α) : Dictionary κ α :=
  ⟨dictionary.pairs.filter test,
    (List.filter_sublist.map Prod.fst).nodup dictionary.distinct⟩

variable [DecidableEq κ]

/-- The value of a key in a list of pairs: the first one counts. -/
def lookupIn (key : κ) : List (κ × α) → Option α
  | [] => none
  | pair :: rest => if pair.1 = key then some pair.2 else lookupIn key rest

/-- The value of a key. -/
def get? (dictionary : Dictionary κ α) (key : κ) : Option α :=
  lookupIn key dictionary.pairs

/-- Is the key present? -/
def contains (dictionary : Dictionary κ α) (key : κ) : Bool :=
  (dictionary.get? key).isSome

/-- Without a key. -/
def erase (dictionary : Dictionary κ α) (key : κ) : Dictionary κ α :=
  dictionary.filter fun pair => !decide (pair.1 = key)

/-- Put a value at a key in a list of pairs. -/
def insertIn (key : κ) (value : α) : List (κ × α) → List (κ × α)
  | [] => [(key, value)]
  | pair :: rest =>
    if pair.1 = key then (key, value) :: rest else pair :: insertIn key value rest

theorem mem_keys_insertIn {key : κ} {value : α} {pairs : List (κ × α)} {other : κ} :
    other ∈ (insertIn key value pairs).map Prod.fst ↔
      other = key ∨ other ∈ pairs.map Prod.fst := by
  induction pairs with
  | nil => simp [insertIn]
  | cons pair rest ih =>
    by_cases same : pair.1 = key
    · simp [insertIn, same]
    · simp only [insertIn, if_neg same, List.map_cons, List.mem_cons, ih]
      exact or_left_comm

theorem nodup_insertIn {key : κ} {value : α} {pairs : List (κ × α)}
    (distinct : (pairs.map Prod.fst).Nodup) :
    ((insertIn key value pairs).map Prod.fst).Nodup := by
  induction pairs with
  | nil => simp [insertIn]
  | cons pair rest ih =>
    rw [List.map_cons, List.nodup_cons] at distinct
    by_cases same : pair.1 = key
    · simpa [insertIn, same] using distinct
    · simp only [insertIn, if_neg same, List.map_cons, List.nodup_cons]
      refine ⟨fun member => ?_, ih distinct.2⟩
      rcases mem_keys_insertIn.1 member with hit | old
      · exact same hit
      · exact distinct.1 old

/-- Put a value at a key. -/
def insert (dictionary : Dictionary κ α) (key : κ) (value : α) : Dictionary κ α :=
  ⟨insertIn key value dictionary.pairs, nodup_insertIn dictionary.distinct⟩

/-- The dictionary of a list of pairs; a later pair wins over an earlier one. -/
def ofList (pairs : List (κ × α)) : Dictionary κ α :=
  pairs.foldl (fun dictionary pair => dictionary.insert pair.1 pair.2) empty

theorem lookupIn_insertIn (key other : κ) (value : α) (pairs : List (κ × α)) :
    lookupIn other (insertIn key value pairs) =
      if other = key then some value else lookupIn other pairs := by
  induction pairs with
  | nil => simp [insertIn, lookupIn, eq_comm]
  | cons pair rest ih =>
    by_cases same : pair.1 = key
    · by_cases hit : other = key
      · simp [insertIn, lookupIn, same, hit]
      · simp [insertIn, lookupIn, same, hit, Ne.symm hit]
    · by_cases hit : other = key
      · subst hit
        simp [insertIn, lookupIn, same, ih]
      · simp [insertIn, lookupIn, same, ih, hit]

@[simp] theorem get?_insert (dictionary : Dictionary κ α) (key other : κ) (value : α) :
    (dictionary.insert key value).get? other =
      if other = key then some value else dictionary.get? other :=
  lookupIn_insertIn key other value dictionary.pairs

theorem lookupIn_filter_ne (key other : κ) (pairs : List (κ × α)) :
    lookupIn other (pairs.filter fun pair => !decide (pair.1 = key)) =
      if other = key then none else lookupIn other pairs := by
  induction pairs with
  | nil => simp [lookupIn]
  | cons pair rest ih =>
    by_cases same : pair.1 = key
    · by_cases hit : other = key
      · simp [same, hit] at ih ⊢
        exact ih
      · simp [lookupIn, same, hit, Ne.symm hit] at ih ⊢
        exact ih
    · by_cases hit : other = key
      · subst hit
        simpa [lookupIn, same] using ih
      · simp [lookupIn, same, hit] at ih ⊢
        rw [ih]

theorem lookupIn_eq_none_iff (key : κ) (pairs : List (κ × α)) :
    lookupIn key pairs = none ↔ key ∉ pairs.map Prod.fst := by
  induction pairs with
  | nil => simp [lookupIn]
  | cons pair rest ih =>
    by_cases same : pair.1 = key
    · simp [lookupIn, same]
    · simp [lookupIn, same, ih, Ne.symm same]

theorem get?_eq_none_iff (dictionary : Dictionary κ α) (key : κ) :
    dictionary.get? key = none ↔ key ∉ dictionary.keys :=
  lookupIn_eq_none_iff key dictionary.pairs

theorem mem_of_lookupIn {key : κ} {value : α} {pairs : List (κ × α)}
    (found : lookupIn key pairs = some value) : (key, value) ∈ pairs := by
  induction pairs with
  | nil => cases found
  | cons pair rest ih =>
    rw [lookupIn] at found
    split at found
    · rename_i same
      obtain rfl := Option.some.inj found
      simp [← same]
    · exact List.mem_cons_of_mem _ (ih found)

theorem mem_of_get? {dictionary : Dictionary κ α} {key : κ} {value : α}
    (found : dictionary.get? key = some value) : (key, value) ∈ dictionary.pairs :=
  mem_of_lookupIn found

/-- A value in a dictionary is the one of its key. -/
theorem get?_of_mem {dictionary : Dictionary κ α} {key : κ}
    {value : α} (member : (key, value) ∈ dictionary.pairs) : dictionary.get? key = some value := by
  obtain ⟨pairs, distinct⟩ := dictionary
  induction pairs with
  | nil => cases member
  | cons first rest ih =>
      rw [List.map_cons, List.nodup_cons] at distinct
      show lookupIn key (first :: rest) = some value
      rw [lookupIn]
      rcases List.mem_cons.1 member with rfl | later
      · rw [if_pos rfl]
      · have apart : first.1 ≠ key := by
          rintro rfl
          exact distinct.1 (List.mem_map.2 ⟨_, later, rfl⟩)
        rw [if_neg apart]
        exact ih distinct.2 later

@[simp] theorem get?_erase (dictionary : Dictionary κ α) (key other : κ) :
    (dictionary.erase key).get? other =
      if other = key then none else dictionary.get? other :=
  lookupIn_filter_ne key other dictionary.pairs

theorem contains_insert (dictionary : Dictionary κ α) (key other : κ) (value : α) :
    (dictionary.insert key value).contains other =
      (decide (other = key) || dictionary.contains other) := by
  rw [contains, get?_insert, contains]
  by_cases same : other = key
  · simp [same]
  · simp [same]

theorem contains_erase (dictionary : Dictionary κ α) (key other : κ) :
    (dictionary.erase key).contains other =
      (!decide (other = key) && dictionary.contains other) := by
  rw [contains, get?_erase, contains]
  by_cases same : other = key
  · simp [same]
  · simp [same]

end Dictionary

end PatchShelf
