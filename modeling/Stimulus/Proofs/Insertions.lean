import Mathlib.Data.List.Basic
import Mathlib.Data.List.Induction
import Stimulus.Table.OrderedMap

/-!
# Insertions into ordered maps

## Order

The keys of a map stand in the order in which they were inserted first, whatever was
inserted under them later.

## Values

Under each key stands the value that was inserted last, and the values stand in the order
of the keys.
-/

namespace Stimulus

section

variable {α : Type} [BEq α] [LawfulBEq α]

theorem eraseDups_concat (l : List α) (a : α) :
    (l ++ [a]).eraseDups = if a ∈ l then l.eraseDups else l.eraseDups ++ [a] := by
  rw [List.eraseDups_append]
  by_cases h : a ∈ l
  · simp [h, List.removeAll]
  · simp [h, List.removeAll, List.eraseDups_cons]

theorem nodup_eraseDups (l : List α) : l.eraseDups.Nodup := by
  induction l using List.reverseRecOn with
  | nil =>
      exact List.nodup_nil
  | append_singleton l a ih =>
      rw [eraseDups_concat]
      split
      · exact ih
      · rename_i hnew
        rw [List.nodup_append]
        refine ⟨ih, List.pairwise_singleton _ _, ?_⟩
        intro b hb d hd hsame
        rw [List.mem_singleton.mp hd] at hsame
        rw [hsame, List.mem_eraseDups] at hb
        exact hnew hb

end

theorem getLast?_filter_concat {α : Type} (counts : α → Bool) (l : List α) (a : α) :
    ((l ++ [a]).filter counts).getLast? =
      if counts a = true then some a else (l.filter counts).getLast? := by
  rw [List.filter_append]
  by_cases h : counts a = true
  · simp [h]
  · simp [h]

namespace OrderedMap

variable {κ ν : Type} [DecidableEq κ]

/-!
# Values in the order of the keys
-/

theorem filterMap_lookup {entries : List (κ × ν)} (h : (entries.map Prod.fst).Nodup) :
    (entries.map Prod.fst).filterMap (fun key => lookup key entries) = entries.map Prod.snd := by
  induction entries with
  | nil =>
      rfl
  | cons entry rest ih =>
      rcases List.nodup_cons.mp h with ⟨hnew, hrest⟩
      have hlater : (rest.map Prod.fst).filterMap (fun key => lookup key (entry :: rest)) =
          (rest.map Prod.fst).filterMap fun key => lookup key rest := by
        apply List.filterMap_congr
        intro key hkey
        have hne : entry.1 ≠ key := by
          intro hsame
          exact hnew (hsame ▸ hkey)
        rw [lookup, if_neg hne]
      rw [List.map_cons, List.filterMap_cons_some (by rw [lookup, if_pos rfl]), hlater, ih hrest,
        List.map_cons]

theorem values_eq (m : OrderedMap κ ν) : m.values = m.keys.filterMap m.get? :=
  (filterMap_lookup m.nodup).symm

theorem exists_get?_of_mem {m : OrderedMap κ ν} {value : ν} (h : value ∈ m.values) :
    ∃ key, m.get? key = some value := by
  rw [values_eq] at h
  rcases List.mem_filterMap.mp h with ⟨key, _, hkey⟩
  exact ⟨key, hkey⟩

theorem map_values {m : OrderedMap κ ν} {own : ν → κ}
    (h : ∀ key value, m.get? key = some value → own value = key) : m.values.map own = m.keys := by
  rw [values_eq, List.map_filterMap]
  refine Eq.trans ?_ (List.filterMap_some)
  apply List.filterMap_congr
  intro key hkey
  rcases Option.isSome_iff_exists.mp ((m.contains_iff key).mpr hkey) with ⟨value, hvalue⟩
  rw [hvalue, Option.map_some, h key value hvalue]

theorem filter_entries (m : OrderedMap κ ν) (key : κ) :
    (m.entries.filter fun entry => entry.1 = key).map Prod.snd = (m.get? key).toList := by
  rcases m with ⟨entries, hnodup⟩
  unfold get?
  dsimp only
  induction entries with
  | nil =>
      rfl
  | cons entry rest ih =>
      rcases List.nodup_cons.mp hnodup with ⟨hnew, hrest⟩
      by_cases hkey : entry.1 = key
      · have hnone : rest.filter (fun later => later.1 = key) = [] := by
          apply List.filter_eq_nil_iff.mpr
          intro later hlater hsame
          rw [hkey, ← of_decide_eq_true hsame] at hnew
          exact hnew (List.mem_map_of_mem hlater)
        rw [List.filter_cons_of_pos (by simpa using hkey), hnone, lookup, if_pos hkey]
        rfl
      · rw [List.filter_cons_of_neg (by simpa using hkey), lookup, if_neg hkey, ih hrest]

/-!
# Lists of insertions
-/

/-- The value that `entries` hold last under `key`. -/
def lastUnder? (key : κ) (entries : List (κ × ν)) : Option ν :=
  (entries.filter fun entry => entry.1 = key).getLast?.map Prod.snd

theorem lastUnder?_concat (key : κ) (entries : List (κ × ν)) (entry : κ × ν) :
    lastUnder? key (entries ++ [entry]) =
      if entry.1 = key then some entry.2 else lastUnder? key entries := by
  rw [lastUnder?, lastUnder?, getLast?_filter_concat]
  by_cases hkey : entry.1 = key
  · simp [hkey]
  · simp [hkey]

theorem ofList_concat (entries : List (κ × ν)) (entry : κ × ν) :
    ofList (entries ++ [entry]) = (ofList entries).insert entry.1 entry.2 := by
  simp [ofList]

theorem override_ofList (entries : List (κ × ν)) (later : OrderedMap κ ν) :
    (ofList entries).override later = ofList (entries ++ later.entries) := by
  simp [ofList, override]

theorem keys_ofList (entries : List (κ × ν)) :
    (ofList entries).keys = (entries.map Prod.fst).eraseDups := by
  induction entries using List.reverseRecOn with
  | nil =>
      rfl
  | append_singleton entries entry ih =>
      rw [ofList_concat, keys_insert, ih, List.map_append, List.map_singleton, eraseDups_concat]
      simp only [List.mem_eraseDups]

theorem get?_ofList (entries : List (κ × ν)) (key : κ) :
    (ofList entries).get? key = lastUnder? key entries := by
  induction entries using List.reverseRecOn with
  | nil =>
      rfl
  | append_singleton entries entry ih =>
      rw [ofList_concat, get?_insert, ih, lastUnder?_concat]

end OrderedMap
end Stimulus
