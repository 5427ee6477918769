import Mathlib.Data.Int.Interval
import Mathlib.Data.Set.Card
import Stimulus.Proofs.Checked
import Stimulus.Request.Distribution

/-!
# Ranges of values

## Contents

A set contains the words that it lists, and an interval those between its bounds.  Read as
numbers, an interval that is converted from a half-open one ends before its upper bound.

## Sizes

The size of an interval is the number of words in it, up to the interval of all words.  A
set counts a word as often as it is listed, which is the number of its words exactly if it
lists none twice.
-/

namespace Stimulus
namespace ValueRange

variable {r : ValueRange} {values : List Int64} {min max start stop : Int64}

/-!
# Contents
-/

def Contains : ValueRange → Int64 → Prop
  | set values, v => v ∈ values
  | interval min max, v => min ≤ v ∧ v ≤ max

instance : Membership Int64 ValueRange :=
  ⟨Contains⟩

theorem mem_set {v : Int64} : v ∈ set values ↔ v ∈ values :=
  Iff.rfl

theorem mem_interval {v : Int64} : v ∈ interval min max ↔ min ≤ v ∧ v ≤ max :=
  Iff.rfl

/-- The numbers that the words of the range stand for. -/
def numbers (r : ValueRange) : Set Int :=
  Int64.toInt '' {v | v ∈ r}

theorem toInt_injective : Function.Injective Int64.toInt := fun _ _ h =>
  Int64.toInt_inj.mp h

theorem exists_toInt {n : Int} (hmin : min.toInt ≤ n) (hmax : n ≤ max.toInt) :
    ∃ v : Int64, v.toInt = n := by
  have hlow := Int64.le_toInt min
  have hhigh := Int64.toInt_lt max
  exact ⟨.ofInt n, Int64.toInt_ofInt_of_le (by omega) (by omega)⟩

theorem numbers_interval (min max : Int64) :
    (interval min max).numbers = {n | min.toInt ≤ n ∧ n ≤ max.toInt} := by
  ext n
  rw [Set.mem_ofPred_eq]
  constructor
  · intro h
    rcases h with ⟨v, hv, rfl⟩
    rcases mem_interval.mp hv with ⟨hmin, hmax⟩
    exact ⟨Int64.le_iff_toInt_le.mp hmin, Int64.le_iff_toInt_le.mp hmax⟩
  · intro h
    rcases exists_toInt h.left h.right with ⟨v, rfl⟩
    exact ⟨v, mem_interval.mpr
      ⟨Int64.le_iff_toInt_le.mpr h.left, Int64.le_iff_toInt_le.mpr h.right⟩, rfl⟩

theorem numbers_set_nil : (set []).numbers = ∅ := by
  have hnone : {v : Int64 | v ∈ set []} = ∅ := by
    ext v
    simp [mem_set]
  rw [numbers, hnone, Set.image_empty]

theorem toInt_pred (h : stop ≠ Int64.minValue) : (stop - 1).toInt = stop.toInt - 1 := by
  have hne : stop.toInt ≠ -2 ^ 63 := by
    intro hsame
    rw [← Int64.toInt_minValue, Int64.toInt_inj] at hsame
    exact h hsame
  have hlow := Int64.le_toInt stop
  have hhigh := Int64.toInt_lt stop
  have hone : (1 : Int64).toInt = 1 := rfl
  rw [Int64.toInt_sub, hone]
  apply Int.bmod_eq_of_le
  · omega
  · omega

theorem numbers_halfOpen (start stop : Int64) :
    (halfOpen start stop).numbers = {n | start.toInt ≤ n ∧ n < stop.toInt} := by
  unfold halfOpen
  by_cases hstop : stop = Int64.minValue
  · have hlow := Int64.minValue_le_toInt start
    rw [if_pos hstop, numbers_set_nil, hstop]
    ext n
    simp only [Set.mem_empty_iff_false, Set.mem_ofPred_eq, false_iff]
    omega
  · rw [if_neg hstop, numbers_interval, toInt_pred hstop]
    ext n
    simp only [Set.mem_ofPred_eq]
    omega

/-!
# Checks
-/

theorem check_set : (set values).check = .ok () ↔ values ≠ [] := by
  cases values with
  | nil => simp [check]
  | cons v rest => simp [check]

theorem check_interval : (interval min max).check = .ok () ↔ min ≤ max := by
  rw [check]
  split
  · rename_i hreversed
    constructor
    · intro h
      cases h
    · intro h
      exact absurd h (Int64.not_le.mpr hreversed)
  · rename_i hordered
    exact ⟨fun _ => Int64.not_lt.mp hordered, fun _ => rfl⟩

theorem check_interval_eq_error {fault : ArgumentFault}
    (h : (interval min max).check = .error fault) :
    max < min ∧ fault = .boundsReversed min max := by
  rw [check] at h
  split at h
  · rename_i hreversed
    cases h
    exact ⟨hreversed, rfl⟩
  · cases h

theorem check_halfOpen : (halfOpen start stop).check = .ok () ↔ start < stop := by
  unfold halfOpen
  by_cases hstop : stop = Int64.minValue
  · have hlow := Int64.minValue_le_toInt start
    rw [if_pos hstop, check_set, hstop, Int64.lt_iff_toInt_lt]
    constructor
    · intro h
      exact absurd rfl h
    · intro h
      omega
  · rw [if_neg hstop, check_interval, Int64.le_iff_toInt_le, Int64.lt_iff_toInt_lt,
      toInt_pred hstop]
    omega

/-!
# Sizes
-/

/-- How many different words the range contains. -/
noncomputable def distinct (r : ValueRange) : Nat :=
  {v | v ∈ r}.ncard

theorem distinct_eq (r : ValueRange) : r.distinct = r.numbers.ncard :=
  (Set.ncard_image_of_injective _ toInt_injective).symm

theorem distinct_interval (min max : Int64) :
    (interval min max).distinct = (max.toInt + 1 - min.toInt).toNat := by
  have hnumbers : (interval min max).numbers = Finset.Icc min.toInt max.toInt := by
    rw [numbers_interval, Finset.coe_Icc]
    rfl
  rw [distinct_eq, hnumbers, Set.ncard_coe_finset, Int.card_Icc]

theorem distinct_set (values : List Int64) : (set values).distinct = values.dedup.length := by
  have hvalues : {v | v ∈ set values} = (values.toFinset : Set Int64) := (List.coe_toFinset _).symm
  rw [distinct, hvalues, Set.ncard_coe_finset, List.card_toFinset]

def ListsOnce : ValueRange → Prop
  | set values => values.Nodup
  | interval _ _ => True

theorem size_interval (h : min ≤ max) :
    (interval min max).size = (max.toInt + 1 - min.toInt).toNat := by
  have hle := Int64.le_iff_toInt_le.mp h
  have hlow := Int64.le_toInt min
  have hhigh := Int64.toInt_lt max
  rw [size, BitVec.toNat_ofInt, Int.emod_eq_of_lt (by omega) (by omega)]
  congr 1
  omega

theorem distinct_le_size (h : r.check = .ok ()) : r.distinct ≤ r.size := by
  cases r with
  | set values =>
      rw [distinct_set]
      exact (List.dedup_sublist values).length_le
  | interval min max => rw [distinct_interval, size_interval (check_interval.mp h)]

theorem size_eq_distinct_iff (h : r.check = .ok ()) : r.size = r.distinct ↔ r.ListsOnce := by
  cases r with
  | set values =>
      rw [distinct_set, ListsOnce, size]
      constructor
      · intro hlength
        rw [← List.dedup_eq_self]
        exact (List.dedup_sublist values).eq_of_length hlength.symm
      · intro hnodup
        rw [List.dedup_eq_self.mpr hnodup]
  | interval min max =>
      rw [distinct_interval, size_interval (check_interval.mp h)]
      exact ⟨fun _ => trivial, fun _ => rfl⟩

end ValueRange

/-!
# Checked ranges
-/

theorem BiasedRange.checked_eq_ok {values : ValueRange} {bias : Nat} {r : BiasedRange} :
    BiasedRange.checked values bias = .ok r ↔ values.check = .ok () ∧ r = ⟨values, bias⟩ := by
  unfold checked
  rw [Checked.bind_eq_ok]
  constructor
  · intro h
    rcases h with ⟨_, hcheck, hr⟩
    exact ⟨hcheck, Checked.pure_eq_ok.mp hr⟩
  · intro h
    exact ⟨(), h.left, Checked.pure_eq_ok.mpr h.right⟩

/-- How the size of a range counts its words. -/
structure CountsWords (r : ValueRange) : Prop where
  nonempty : 0 < r.distinct
  distinct_le : r.distinct ≤ r.size
  exact_iff : r.size = r.distinct ↔ r.ListsOnce
  same : ∀ other : ValueRange, other.check = .ok () → r.ListsOnce → other.ListsOnce →
    (∀ v, v ∈ r ↔ v ∈ other) → r.size = other.size

/-- The size of a range that is accepted is the number of its words, repetitions apart. -/
theorem countsWords_of_checked {values : ValueRange} {bias : Nat} {r : BiasedRange}
    (h : BiasedRange.checked values bias = .ok r) : CountsWords r.values := by
  rcases BiasedRange.checked_eq_ok.mp h with ⟨hcheck, rfl⟩
  refine ⟨?_, ValueRange.distinct_le_size hcheck, ValueRange.size_eq_distinct_iff hcheck, ?_⟩
  · cases values with
    | set values =>
        rw [ValueRange.distinct_set, List.length_pos_iff, ne_eq, List.dedup_eq_nil]
        exact ValueRange.check_set.mp hcheck
    | interval min max =>
        have hle := Int64.le_iff_toInt_le.mp (ValueRange.check_interval.mp hcheck)
        rw [ValueRange.distinct_interval]
        omega
  · intro other hother honce honce' hsame
    have hwords : {v | v ∈ values} = {v | v ∈ other} := Set.ext hsame
    rw [(ValueRange.size_eq_distinct_iff hcheck).mpr honce,
      (ValueRange.size_eq_distinct_iff hother).mpr honce', ValueRange.distinct,
      ValueRange.distinct, hwords]

theorem countsWords_of_checked_sample :
    BiasedRange.checked (.interval Int64.minValue Int64.maxValue) 1 =
        .ok ⟨.interval Int64.minValue Int64.maxValue, 1⟩ ∧
      (ValueRange.interval Int64.minValue Int64.maxValue).size = 2 ^ 64 ∧
      CountsWords (.interval Int64.minValue Int64.maxValue) := by
  have hchecked : BiasedRange.checked (.interval Int64.minValue Int64.maxValue) 1 =
      .ok ⟨.interval Int64.minValue Int64.maxValue, 1⟩ := by
    decide
  exact ⟨hchecked, by decide, countsWords_of_checked hchecked⟩

theorem size_repeated :
    BiasedRange.checked (.set [1, 1]) 1 = .ok ⟨.set [1, 1], 1⟩ ∧
      BiasedRange.checked (.single 1) 1 = .ok ⟨.set [1], 1⟩ ∧
      (∀ v, v ∈ ValueRange.set [1, 1] ↔ v ∈ ValueRange.single 1) ∧
      (ValueRange.set [1, 1]).size ≠ (ValueRange.set [1, 1]).distinct ∧
      (ValueRange.set [1, 1]).size ≠ (ValueRange.single 1).size := by
  refine ⟨by decide, by decide, ?_, ?_, by decide⟩
  · intro v
    rw [ValueRange.single, ValueRange.mem_set, ValueRange.mem_set]
    simp
  · rw [ValueRange.distinct_set]
    decide

end Stimulus
