/-!
# Insertion-ordered maps

## Entries with distinct keys

A map keeps its entries in the order in which their keys were first inserted.
Inserting under a key that is present replaces the value where it stands.
-/

namespace Stimulus

/-- A finite map that remembers the order of first insertion. -/
structure OrderedMap (κ ν : Type) where
  entries : List (κ × ν)
  nodup : (entries.map Prod.fst).Nodup

namespace OrderedMap

variable {κ ν : Type}

/-!
# Association lists
-/

section Lists

variable [DecidableEq κ]

def lookup (key : κ) : List (κ × ν) → Option ν
  | [] => none
  | (k, v) :: rest => if k = key then some v else lookup key rest

def put (key : κ) (value : ν) : List (κ × ν) → List (κ × ν)
  | [] => [(key, value)]
  | (k, v) :: rest =>
      if k = key then (k, value) :: rest else (k, v) :: put key value rest

theorem keys_put (key : κ) (value : ν) (entries : List (κ × ν)) :
    (put key value entries).map Prod.fst =
      if key ∈ entries.map Prod.fst then entries.map Prod.fst
      else entries.map Prod.fst ++ [key] := by
  induction entries with
  | nil =>
      simp [put]
  | cons entry rest ih =>
      rcases entry with ⟨k, v⟩
      by_cases h : k = key
      · simp [put, h]
      · have hne : ¬ key = k := fun e => h e.symm
        by_cases hmem : key ∈ rest.map Prod.fst
        · simp only [hmem, if_true] at ih
          simp only [put, h, if_false, List.map_cons, ih, List.mem_cons, hmem,
            or_true, if_true]
        · simp only [hmem, if_false] at ih
          simp only [put, h, if_false, List.map_cons, ih, List.mem_cons, hne,
            hmem, or_self, List.cons_append]

theorem nodup_put (key : κ) (value : ν) {entries : List (κ × ν)}
    (h : (entries.map Prod.fst).Nodup) :
    ((put key value entries).map Prod.fst).Nodup := by
  rw [keys_put]
  by_cases hmem : key ∈ entries.map Prod.fst
  · simpa [hmem] using h
  · rw [if_neg hmem]
    rw [List.nodup_append]
    refine ⟨h, by simp, ?_⟩
    intro a ha b hb hab
    rw [List.mem_singleton] at hb
    exact hmem (hb ▸ hab ▸ ha)

theorem lookup_put (key other : κ) (value : ν) (entries : List (κ × ν)) :
    lookup other (put key value entries) =
      if key = other then some value else lookup other entries := by
  induction entries with
  | nil =>
      simp [put, lookup]
  | cons entry rest ih =>
      rcases entry with ⟨k, v⟩
      by_cases h : k = key
      · subst h
        by_cases ho : k = other <;> simp [put, lookup, ho]
      · by_cases ho : k = other
        · subst ho
          have hne : ¬ key = k := fun e => h e.symm
          simp [put, lookup, h, hne]
        · simp [put, lookup, h, ho, ih]

theorem put_put (key : κ) (value later : ν) (entries : List (κ × ν)) :
    put key later (put key value entries) = put key later entries := by
  induction entries with
  | nil =>
      simp [put]
  | cons entry rest ih =>
      by_cases h : entry.1 = key
      · simp [put, h]
      · simp [put, h, ih]

theorem isSome_lookup (key : κ) (entries : List (κ × ν)) :
    (lookup key entries).isSome = true ↔ key ∈ entries.map Prod.fst := by
  induction entries with
  | nil =>
      simp [lookup]
  | cons entry rest ih =>
      rcases entry with ⟨k, v⟩
      by_cases h : k = key
      · simp [lookup, h]
      · have hne : ¬ key = k := fun e => h e.symm
        rw [lookup, if_neg h, ih, List.map_cons, List.mem_cons]
        simp [hne]

theorem mem_put {key : κ} {value : ν} {entry : κ × ν} {entries : List (κ × ν)}
    (h : entry ∈ put key value entries) : entry = (key, value) ∨ entry ∈ entries := by
  induction entries with
  | nil =>
      exact Or.inl (List.mem_singleton.mp h)
  | cons first rest ih =>
      rw [put] at h
      split at h
      · rename_i hkey
        rcases List.mem_cons.mp h with hvalue | hrest
        · exact Or.inl (hvalue.trans (congrArg (·, value) hkey))
        · exact Or.inr (List.mem_cons_of_mem _ hrest)
      · rcases List.mem_cons.mp h with hfirst | hrest
        · rw [hfirst]
          exact Or.inr List.mem_cons_self
        · rcases ih hrest with hvalue | hold
          · exact Or.inl hvalue
          · exact Or.inr (List.mem_cons_of_mem _ hold)

theorem mem_values_put {key : κ} {value v : ν} {entries : List (κ × ν)}
    (h : v ∈ (put key value entries).map Prod.snd) : v = value ∨ v ∈ entries.map Prod.snd := by
  rcases List.mem_map.mp h with ⟨entry, hentry, rfl⟩
  rcases mem_put hentry with hnew | hold
  · exact Or.inl (congrArg Prod.snd hnew)
  · exact Or.inr (List.mem_map_of_mem hold)

theorem mem_of_lookup {key : κ} {v : ν} {entries : List (κ × ν)}
    (h : lookup key entries = some v) : v ∈ entries.map Prod.snd := by
  induction entries with
  | nil =>
      cases h
  | cons entry rest ih =>
      rw [lookup] at h
      split at h
      · cases h
        exact List.mem_cons_self
      · exact List.mem_cons_of_mem _ (ih h)

end Lists

/-!
# Maps
-/

def empty : OrderedMap κ ν :=
  ⟨[], List.nodup_nil⟩

instance : EmptyCollection (OrderedMap κ ν) :=
  ⟨empty⟩

instance : Inhabited (OrderedMap κ ν) :=
  ⟨empty⟩

def keys (m : OrderedMap κ ν) : List κ :=
  m.entries.map Prod.fst

def values (m : OrderedMap κ ν) : List ν :=
  m.entries.map Prod.snd

def size (m : OrderedMap κ ν) : Nat :=
  m.entries.length

def isEmpty (m : OrderedMap κ ν) : Bool :=
  m.entries.isEmpty

section Operations

variable [DecidableEq κ]

def get? (m : OrderedMap κ ν) (key : κ) : Option ν :=
  lookup key m.entries

def contains (m : OrderedMap κ ν) (key : κ) : Bool :=
  (m.get? key).isSome

def insert (m : OrderedMap κ ν) (key : κ) (value : ν) : OrderedMap κ ν :=
  ⟨put key value m.entries, nodup_put key value m.nodup⟩

/-- Inserts the entries of `later` in order, so that they win over those of `m`. -/
def override (m later : OrderedMap κ ν) : OrderedMap κ ν :=
  later.entries.foldl (fun acc entry => acc.insert entry.1 entry.2) m

def ofList (entries : List (κ × ν)) : OrderedMap κ ν :=
  entries.foldl (fun acc entry => acc.insert entry.1 entry.2) empty

@[simp]
theorem get?_empty (key : κ) : (empty : OrderedMap κ ν).get? key = none :=
  rfl

theorem get?_insert (m : OrderedMap κ ν) (key other : κ) (value : ν) :
    (m.insert key value).get? other =
      if key = other then some value else m.get? other :=
  lookup_put key other value m.entries

theorem insert_insert (m : OrderedMap κ ν) (key : κ) (value later : ν) :
    (m.insert key value).insert key later = m.insert key later := by
  simp only [insert, put_put]

theorem keys_insert (m : OrderedMap κ ν) (key : κ) (value : ν) :
    (m.insert key value).keys =
      if key ∈ m.keys then m.keys else m.keys ++ [key] :=
  keys_put key value m.entries

theorem mem_values_insert {m : OrderedMap κ ν} {key : κ} {value v : ν}
    (h : v ∈ (m.insert key value).values) : v = value ∨ v ∈ m.values :=
  mem_values_put h

theorem mem_values_of_get? {m : OrderedMap κ ν} {key : κ} {v : ν} (h : m.get? key = some v) :
    v ∈ m.values :=
  mem_of_lookup h

theorem contains_iff (m : OrderedMap κ ν) (key : κ) :
    m.contains key = true ↔ key ∈ m.keys :=
  isSome_lookup key m.entries

end Operations

end OrderedMap
/-!
# Indexed tables

The values of a table stand in a row, and an index leads from every key to the position of
its value.  A value under a key that the index knows is replaced where it stands; any other
goes to the end of the row.
-/

structure IndexedTable (κ ν : Type) where
  row : List ν := []
  index : OrderedMap κ Nat := {}

namespace IndexedTable

variable {κ ν : Type} [DecidableEq κ]

def get? (t : IndexedTable κ ν) (key : κ) : Option ν :=
  (t.index.get? key).bind fun position => t.row[position]?

def append (t : IndexedTable κ ν) (key : κ) (value : ν) : IndexedTable κ ν where
  row := t.row ++ [value]
  index := t.index.insert key t.row.length

def insert (t : IndexedTable κ ν) (key : κ) (value : ν) : IndexedTable κ ν :=
  match t.index.get? key with
  | some position => { t with row := t.row.set position value }
  | none => t.append key value

def ofList (entries : List (κ × ν)) : IndexedTable κ ν :=
  entries.foldl (fun t entry => t.insert entry.1 entry.2) {}

end IndexedTable

end Stimulus
