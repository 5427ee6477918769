import Mathlib.Data.List.Induction
import Stimulus.Proofs.ValueRanges

/-!
# Construction of distributions

## Forms of ranges

A range is given as a set of words, as an interval with or without its upper bound, or as
a single word.  Each form has its own condition under which the range is not degenerate,
and its own fault otherwise.

## Order of the checks

The first degenerate range is the cause of a refusal, whether the ranges are checked one
by one or together.  The biases are added up only after that, in a word that no list of
less than `2 ^ 32` ranges makes overflow.
-/

namespace Stimulus

/-!
# Forms of ranges
-/

inductive RangeForm where
  | set (values : List Int64)
  | inclusive (min max : Int64)
  | halfOpen (start stop : Int64)
  | single (value : Int64)

namespace RangeForm

def values : RangeForm → ValueRange
  | set values => .set values
  | inclusive min max => .interval min max
  | halfOpen start stop => .halfOpen start stop
  | single value => .single value

def WellFormed : RangeForm → Prop
  | set values => values ≠ []
  | inclusive min max => min ≤ max
  | halfOpen start stop => start < stop
  | single _ => True

def numbers : RangeForm → Set Int
  | set values => {n | ∃ v ∈ values, v.toInt = n}
  | inclusive min max => {n | min.toInt ≤ n ∧ n ≤ max.toInt}
  | halfOpen start stop => {n | start.toInt ≤ n ∧ n < stop.toInt}
  | single value => {value.toInt}

inductive Faulty : RangeForm → ArgumentFault → Prop where
  | empty : Faulty (set []) .noValues
  | reversed {min max : Int64} (h : max < min) :
      Faulty (inclusive min max) (.boundsReversed min max)
  | emptyInterval {start stop last : Int64} (h : stop ≤ start)
      (hlast : last.toInt = stop.toInt - 1) :
      Faulty (halfOpen start stop) (.boundsReversed start last)
  | belowLeast {start : Int64} : Faulty (halfOpen start Int64.minValue) .noValues

theorem numbers_values (form : RangeForm) : form.values.numbers = form.numbers := by
  cases form with
  | set values => rfl
  | inclusive min max => exact ValueRange.numbers_interval min max
  | halfOpen start stop => exact ValueRange.numbers_halfOpen start stop
  | single value =>
      have hvalue : {v : Int64 | v ∈ ValueRange.set [value]} = {value} := by
        ext v
        simp [ValueRange.mem_set]
      rw [values, ValueRange.single, ValueRange.numbers, hvalue, Set.image_singleton, numbers]

theorem check_eq_ok {form : RangeForm} : form.values.check = .ok () ↔ form.WellFormed := by
  cases form with
  | set values => exact ValueRange.check_set
  | inclusive min max => exact ValueRange.check_interval
  | halfOpen start stop => exact ValueRange.check_halfOpen
  | single value => exact iff_of_true rfl trivial

theorem faulty_of_check {form : RangeForm} {fault : ArgumentFault}
    (h : form.values.check = .error fault) : form.Faulty fault := by
  cases form with
  | set values =>
      cases values with
      | nil =>
          cases h
          exact .empty
      | cons v rest => cases h
  | inclusive min max =>
      rcases ValueRange.check_interval_eq_error h with ⟨hreversed, rfl⟩
      exact .reversed hreversed
  | halfOpen start stop =>
      rw [values, ValueRange.halfOpen] at h
      by_cases hstop : stop = Int64.minValue
      · rw [if_pos hstop] at h
        cases h
        rw [hstop]
        exact .belowLeast
      · rw [if_neg hstop] at h
        have hlast := ValueRange.toInt_pred hstop
        rcases ValueRange.check_interval_eq_error h with ⟨hreversed, rfl⟩
        rw [Int64.lt_iff_toInt_lt, hlast] at hreversed
        exact .emptyInterval (Int64.le_iff_toInt_le.mpr (by omega)) hlast
  | single value => cases h

end RangeForm

/-!
# Checks in order
-/

namespace Distribution

open Checked

variable {ranges : List BiasedRange} {fault : ArgumentFault}

theorem checkRanges_eq_ok :
    checkRanges ranges = .ok () ↔ ∀ r ∈ ranges, r.values.check = .ok () := by
  induction ranges with
  | nil =>
      exact iff_of_true rfl (by simp)
  | cons r rest ih =>
      rw [checkRanges, bind_eq_ok, List.forall_mem_cons, ih]
      constructor
      · intro h
        rcases h with ⟨_, hr, hrest⟩
        exact ⟨hr, hrest⟩
      · intro h
        exact ⟨(), h⟩

theorem checkRanges_eq_error (h : checkRanges ranges = .error fault) :
    ∃ front r rest, ranges = front ++ r :: rest ∧ (∀ q ∈ front, q.values.check = .ok ()) ∧
      r.values.check = .error fault := by
  induction ranges with
  | nil =>
      cases h
  | cons r rest ih =>
      rw [checkRanges, bind_eq_error] at h
      rcases h with hfirst | ⟨_, hfirst, hrest⟩
      · exact ⟨[], r, rest, rfl, by simp, hfirst⟩
      · rcases ih hrest with ⟨front, r', rest', rfl, hfront, hfault⟩
        exact ⟨r :: front, r', rest', rfl, List.forall_mem_cons.mpr ⟨hfirst, hfront⟩, hfault⟩

theorem ofRanges_of_fault (h : checkRanges ranges = .error fault) :
    ofRanges ranges = .error fault := by
  cases ranges with
  | nil => cases h
  | cons r rest =>
      unfold ofRanges
      rw [h]
      rfl

theorem ofRanges_of_passed (hne : ranges ≠ []) (h : checkRanges ranges = .ok ()) :
    ofRanges ranges = if biasSum ⟨ranges⟩ = 0 then .error .noBias else .ok ⟨ranges⟩ := by
  cases ranges with
  | nil => exact absurd rfl hne
  | cons r rest =>
      unfold ofRanges
      rw [h]
      rfl

theorem mapM_checked (given : List (ValueRange × Nat)) :
    (given.mapM fun r => BiasedRange.checked r.1 r.2) =
      (checkRanges (given.map fun r => ⟨r.1, r.2⟩)).map fun _ => given.map fun r => ⟨r.1, r.2⟩ := by
  induction given with
  | nil =>
      rfl
  | cons r rest ih =>
      rw [List.mapM_cons, ih, List.map_cons, checkRanges, BiasedRange.checked]
      cases r.1.check with
      | error fault => rfl
      | ok _ =>
          cases checkRanges (rest.map fun r => ⟨r.1, r.2⟩) <;> rfl

theorem ofValues_eq (given : List (ValueRange × Nat)) :
    ofValues given = ofRanges (given.map fun r => ⟨r.1, r.2⟩) := by
  unfold ofValues
  rw [mapM_checked]
  cases h : checkRanges (given.map fun r => ⟨r.1, r.2⟩) with
  | error fault =>
      rw [ofRanges_of_fault h]
      rfl
  | ok _ => rfl

/-!
# Sums of biases
-/

theorem toNat_biasWord (hbias : ∀ r ∈ ranges, r.bias < 2 ^ 32) (hlength : ranges.length < 2 ^ 32) :
    (biasWord ranges).toNat = (ranges.map BiasedRange.bias).sum ∧
      (ranges.map BiasedRange.bias).sum ≤ ranges.length * (2 ^ 32 - 1) := by
  induction ranges using List.reverseRecOn with
  | nil =>
      exact ⟨rfl, Nat.zero_le _⟩
  | append_singleton front r ih =>
      rw [List.length_append, List.length_singleton] at hlength
      have hr := hbias r (by simp)
      rcases ih (fun q hq => hbias q (List.mem_append_left _ hq)) (by omega) with ⟨hfront, hbound⟩
      have hsum : ((front ++ [r]).map BiasedRange.bias).sum =
          (front.map BiasedRange.bias).sum + r.bias := by
        simp
      have hword : biasWord (front ++ [r]) = biasWord front + .ofNat r.bias := by
        simp [biasWord]
      rw [hsum, hword, UInt64.toNat_add, hfront, UInt64.toNat_ofNat', List.length_append,
        List.length_singleton, Nat.mod_eq_of_lt (show r.bias < 2 ^ 64 by omega)]
      constructor
      · exact Nat.mod_eq_of_lt (by omega)
      · omega

end Distribution

/-!
# Requests
-/

abbrev RangeRequest :=
  RangeForm × UInt32

namespace RangeRequest

variable {requested : List RangeRequest}

def given (r : RangeRequest) : ValueRange × Nat :=
  (r.1.values, r.2.toNat)

def unchecked (r : RangeRequest) : BiasedRange :=
  ⟨r.1.values, r.2.toNat⟩

def totalBias (requested : List RangeRequest) : Nat :=
  (requested.map fun r => r.2.toNat).sum

theorem biasSum_unchecked (hlength : requested.length < 2 ^ 32) :
    Distribution.biasSum ⟨requested.map unchecked⟩ = totalBias requested := by
  have hbias : ∀ r ∈ requested.map unchecked, r.bias < 2 ^ 32 := by
    intro r hr
    rcases List.mem_map.mp hr with ⟨q, _, rfl⟩
    exact q.2.toNat_lt
  rw [Distribution.biasSum, (Distribution.toNat_biasWord hbias (by simpa using hlength)).left,
    List.map_map]
  rfl

theorem totalBias_eq_zero : totalBias requested = 0 ↔ ∀ r ∈ requested, r.2 = 0 := by
  rw [totalBias, List.sum_eq_zero_iff_forall_eq_nat, List.forall_mem_map]
  apply forall₂_congr
  intro r _
  rw [← UInt32.toNat_inj]
  rfl

theorem checkRanges_unchecked :
    Distribution.checkRanges (requested.map unchecked) = .ok () ↔
      ∀ r ∈ requested, r.1.WellFormed := by
  rw [Distribution.checkRanges_eq_ok, List.forall_mem_map]
  apply forall₂_congr
  intro r _
  exact RangeForm.check_eq_ok

end RangeRequest

/-!
# Outcomes
-/

open RangeRequest in
/-- What becomes of a list of requested ranges. -/
inductive Distribution.Outcome (requested : List RangeRequest) :
    Except ArgumentFault Distribution → Prop where
  | nothing (h : requested = []) : Outcome requested (.error .noRanges)
  | degenerate {front rest : List RangeRequest} {r : RangeRequest} {fault : ArgumentFault}
      (hrequested : requested = front ++ r :: rest) (hfront : ∀ q ∈ front, q.1.WellFormed)
      (hfault : r.1.Faulty fault) : Outcome requested (.error fault)
  | unbiased (hne : requested ≠ []) (hformed : ∀ r ∈ requested, r.1.WellFormed)
      (hbias : ∀ r ∈ requested, r.2 = 0) : Outcome requested (.error .noBias)
  | built {d : Distribution} (hformed : ∀ r ∈ requested, r.1.WellFormed)
      (hbias : ∃ r ∈ requested, r.2 ≠ 0) (hranges : d.ranges = requested.map unchecked)
      (htotal : d.biasSum = totalBias requested) : Outcome requested (.ok d)

namespace RangeRequest

variable {requested : List RangeRequest}

theorem outcome_ofRanges (hlength : requested.length < 2 ^ 32) :
    Distribution.Outcome requested (Distribution.ofRanges (requested.map unchecked)) := by
  by_cases hnil : requested = []
  · rw [hnil]
    exact .nothing rfl
  · have hne : requested.map unchecked ≠ [] := by simpa using hnil
    cases hcheck : Distribution.checkRanges (requested.map unchecked) with
    | error fault =>
        rw [Distribution.ofRanges_of_fault hcheck]
        rcases Distribution.checkRanges_eq_error hcheck with
          ⟨front, r, rest, hranges, hfront, hfault⟩
        rcases List.map_eq_append_iff.mp hranges with ⟨before, later, rfl, rfl, hlater⟩
        rcases List.map_eq_cons_iff.mp hlater with ⟨q, after, rfl, rfl, rfl⟩
        refine .degenerate rfl ?_ (RangeForm.faulty_of_check hfault)
        intro q' hq'
        exact RangeForm.check_eq_ok.mp (hfront _ (List.mem_map_of_mem hq'))
    | ok _ =>
        have hformed := checkRanges_unchecked.mp hcheck
        rw [Distribution.ofRanges_of_passed hne hcheck, biasSum_unchecked hlength]
        by_cases htotal : totalBias requested = 0
        · rw [if_pos htotal]
          exact .unbiased hnil hformed (totalBias_eq_zero.mp htotal)
        · rw [if_neg htotal]
          refine .built hformed ?_ rfl (biasSum_unchecked hlength)
          rw [totalBias_eq_zero] at htotal
          simpa using htotal

theorem ofValues_given (requested : List RangeRequest) :
    Distribution.ofValues (requested.map given) =
      Distribution.ofRanges (requested.map unchecked) := by
  rw [Distribution.ofValues_eq, List.map_map]
  rfl

theorem ofRanges_succeeds_iff (hlength : requested.length < 2 ^ 32) :
    (∃ d, Distribution.ofRanges (requested.map unchecked) = .ok d) ↔
      requested ≠ [] ∧ (∀ r ∈ requested, r.1.WellFormed) ∧ ∃ r ∈ requested, r.2 ≠ 0 := by
  constructor
  · intro h
    rcases h with ⟨d, hd⟩
    have houtcome := outcome_ofRanges hlength
    rw [hd] at houtcome
    cases houtcome with
    | built hformed hbias _ _ =>
        rcases hbias with ⟨r, hr, hpositive⟩
        exact ⟨List.ne_nil_of_mem hr, hformed, r, hr, hpositive⟩
  · intro h
    rcases h with ⟨hne, hformed, r, hr, hpositive⟩
    have htotal : totalBias requested ≠ 0 := by
      intro hzero
      exact hpositive (totalBias_eq_zero.mp hzero r hr)
    rw [Distribution.ofRanges_of_passed (by simpa using hne) (checkRanges_unchecked.mpr hformed),
      biasSum_unchecked hlength, if_neg htotal]
    exact ⟨_, rfl⟩

end RangeRequest

open RangeRequest in
/-- How a distribution is put together from requested ranges. -/
structure Distribution.Construction (requested : List RangeRequest) : Prop where
  agree : ofValues (requested.map given) = ofRanges (requested.map unchecked)
  outcome : Outcome requested (ofValues (requested.map given))
  succeeds_iff : (∃ d, ofValues (requested.map given) = .ok d) ↔
    requested ≠ [] ∧ (∀ r ∈ requested, r.1.WellFormed) ∧ ∃ r ∈ requested, r.2 ≠ 0
  numbers : ∀ r ∈ requested, r.unchecked.values.numbers = r.1.numbers
  sums : ∀ front, front <+: requested →
    (biasWord (front.map unchecked)).toNat = totalBias front

/-- Every list of less than `2 ^ 32` ranges, of whatever forms, is put together in this way. -/
theorem Distribution.construction_of_length {requested : List RangeRequest}
    (h : requested.length < 2 ^ 32) : Construction requested where
  agree := RangeRequest.ofValues_given requested
  outcome := by
    rw [RangeRequest.ofValues_given]
    exact RangeRequest.outcome_ofRanges h
  succeeds_iff := by
    rw [RangeRequest.ofValues_given]
    exact RangeRequest.ofRanges_succeeds_iff h
  numbers r _ := r.1.numbers_values
  sums _ hfront := RangeRequest.biasSum_unchecked (Nat.lt_of_le_of_lt hfront.length_le h)

def RangeRequest.mixed : List RangeRequest :=
  [(.halfOpen Int64.minValue 0, 0), (.set [1, 1], 4294967295), (.single 5, 4294967295)]

def RangeRequest.degenerate : List RangeRequest :=
  mixed ++ [(.halfOpen 3 3, 1), (.inclusive 0 5, 0), (.set [], 1)]

theorem Distribution.construction_of_length_sample :
    RangeRequest.mixed.length < 2 ^ 32 ∧ RangeRequest.degenerate.length < 2 ^ 32 ∧
      (ofValues (RangeRequest.mixed.map RangeRequest.given)).toOption.map biasSum =
        some 8589934590 ∧
      ofValues (RangeRequest.degenerate.map RangeRequest.given) =
        .error (.boundsReversed 3 2) ∧
      Construction RangeRequest.mixed ∧ Construction RangeRequest.degenerate := by
  have hmixed : RangeRequest.mixed.length < 2 ^ 32 := by decide
  have hdegenerate : RangeRequest.degenerate.length < 2 ^ 32 := by decide
  exact ⟨hmixed, hdegenerate, by decide, by decide, construction_of_length hmixed,
    construction_of_length hdegenerate⟩

end Stimulus
