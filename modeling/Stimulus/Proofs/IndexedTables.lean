import Mathlib.Data.List.Basic
import Mathlib.Data.List.Induction
import Stimulus.Proofs.Insertions
import Stimulus.Table.OrderedMap

/-!
# Coherence of indexed tables

## Entries

The values of an indexed table stand in the order of its entries, and the index leads from
each key to the place of its entry.  An insertion keeps both in step, so that a row which
is patched in place holds the same entries as a map that keeps keys and values together.
-/

namespace Stimulus

/-!
# Positions of keys
-/

theorem idxOf?_concat {α : Type} [DecidableEq α] (l : List α) (a b : α) :
    (l ++ [a]).idxOf? b = (l.idxOf? b).or (if a = b then some l.length else none) := by
  unfold List.idxOf?
  rw [List.findIdx?_append]
  by_cases h : a = b
  · simp [h]
  · simp [h]

namespace OrderedMap

variable {κ ν : Type} [DecidableEq κ]

theorem lookup_eq_idxOf? (key : κ) (entries : List (κ × ν)) :
    lookup key entries =
      ((entries.map Prod.fst).idxOf? key).bind fun position =>
        (entries.map Prod.snd)[position]? := by
  induction entries with
  | nil =>
      rfl
  | cons entry rest ih =>
      rw [lookup, List.map_cons, List.idxOf?_cons]
      by_cases h : entry.1 = key
      · rw [if_pos h, if_pos (beq_iff_eq.mpr h)]
        rfl
      · rw [if_neg h, if_neg (by simpa using h), ih]
        cases (rest.map Prod.fst).idxOf? key <;> rfl

theorem values_put_of_idxOf? {key : κ} {entries : List (κ × ν)} {position : Nat}
    (h : (entries.map Prod.fst).idxOf? key = some position) (value : ν) :
    (put key value entries).map Prod.snd = (entries.map Prod.snd).set position value := by
  induction entries generalizing position with
  | nil =>
      cases h
  | cons entry rest ih =>
      rw [List.map_cons, List.idxOf?_cons] at h
      rw [put]
      by_cases hkey : entry.1 = key
      · rw [if_pos (beq_iff_eq.mpr hkey)] at h
        cases h
        rw [if_pos hkey]
        rfl
      · rw [if_neg (by simpa using hkey)] at h
        rcases Option.map_eq_some_iff.mp h with ⟨inner, hinner, rfl⟩
        rw [if_neg hkey, List.map_cons, ih hinner]
        rfl

theorem put_of_not_mem {key : κ} {entries : List (κ × ν)}
    (h : key ∉ entries.map Prod.fst) (value : ν) :
    put key value entries = entries ++ [(key, value)] := by
  induction entries with
  | nil =>
      rfl
  | cons entry rest ih =>
      rw [List.map_cons, List.mem_cons, not_or] at h
      rw [put, if_neg (Ne.symm h.left), ih h.right]
      rfl

end OrderedMap

/-!
# Coherence
-/

namespace IndexedTable

open OrderedMap

variable {κ ν : Type} [DecidableEq κ] {t : IndexedTable κ ν} {entries : List (κ × ν)}

/-- The row holds the values of the entries, and the index the positions of their keys. -/
structure Holds (t : IndexedTable κ ν) (entries : List (κ × ν)) : Prop where
  row : t.row = entries.map Prod.snd
  index : ∀ key, t.index.get? key = (entries.map Prod.fst).idxOf? key

namespace Holds

theorem empty : Holds ({} : IndexedTable κ ν) [] where
  row := rfl
  index _ := rfl

theorem get? (h : t.Holds entries) (key : κ) : t.get? key = lookup key entries := by
  rw [IndexedTable.get?, h.index, h.row, lookup_eq_idxOf?]

theorem contains (h : t.Holds entries) (key : κ) :
    t.index.contains key = true ↔ key ∈ entries.map Prod.fst := by
  rw [OrderedMap.contains, h.index, List.isSome_idxOf?]

theorem lt_length (h : t.Holds entries) {key : κ} {position : Nat}
    (hposition : t.index.get? key = some position) : position < t.row.length := by
  rw [h.index] at hposition
  rw [h.row, List.length_map, ← List.length_map (f := Prod.fst)]
  exact (List.findIdx?_eq_some_iff_getElem.mp hposition).1

theorem append (h : t.Holds entries) {key : κ} (hnew : key ∉ entries.map Prod.fst) (value : ν) :
    (t.append key value).Holds (entries ++ [(key, value)]) where
  row := by
    rw [IndexedTable.append, h.row, List.map_append]
    rfl
  index other := by
    have hlength : t.row.length = (entries.map Prod.fst).length := by
      rw [h.row, List.length_map, List.length_map]
    rw [IndexedTable.append, OrderedMap.get?_insert, h.index, hlength, List.map_append,
      List.map_singleton, idxOf?_concat]
    by_cases hkey : key = other
    · rw [if_pos hkey, if_pos hkey, List.idxOf?_eq_none_iff.mpr (hkey ▸ hnew), Option.none_or]
    · rw [if_neg hkey, if_neg hkey, Option.or_none]

theorem insert (h : t.Holds entries) (key : κ) (value : ν) :
    (t.insert key value).Holds (put key value entries) := by
  have hindex := h.index key
  unfold IndexedTable.insert
  cases hposition : (entries.map Prod.fst).idxOf? key with
  | some position =>
      rw [hposition] at hindex
      have hmem : key ∈ entries.map Prod.fst := by
        rw [← List.isSome_idxOf?, hposition]
        rfl
      rw [hindex]
      refine ⟨?_, ?_⟩
      · rw [values_put_of_idxOf? hposition, h.row]
      · intro other
        rw [keys_put, if_pos hmem]
        exact h.index other
  | none =>
      have hnew := List.idxOf?_eq_none_iff.mp hposition
      rw [hposition] at hindex
      rw [hindex, put_of_not_mem hnew]
      exact h.append hnew value

end Holds

theorem holds_ofList (entries : List (κ × ν)) :
    (ofList entries).Holds (OrderedMap.ofList entries).entries := by
  induction entries using List.reverseRecOn with
  | nil =>
      exact .empty
  | append_singleton entries entry ih =>
      have hlast : ofList (entries ++ [entry]) = (ofList entries).insert entry.1 entry.2 := by
        simp [ofList]
      rw [hlast, OrderedMap.ofList_concat]
      exact ih.insert entry.1 entry.2

end IndexedTable
end Stimulus
