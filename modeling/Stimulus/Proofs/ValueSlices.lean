import Stimulus.Pattern.SliceSteps
import Stimulus.Proofs.RegisterLoads

/-!
# Slices of a value

## Steps

An accepted slice is extracted without an overflow: its positions stay below 64, and only
a slice of all bits is as wide as the word.

## Cuts

Growing bit positions cut a word into slices that lie next to one another.  The part of
a slice is what the bits of its span stand for, so that the parts, each moved back to
where it was, add up to the value.
-/

namespace Stimulus
namespace BitSlice

theorem ofBits_eq_ok {low high : Nat} {slice : BitSlice} :
    ofBits low high = .ok slice ↔
      ∃ (hle : low ≤ high) (hlt : high < 64), slice = .bits low high hle hlt := by
  unfold ofBits
  split
  · rename_i h
    constructor
    · intro hok
      cases hok
      exact ⟨h.left, h.right, rfl⟩
    · intro hok
      rcases hok with ⟨_, _, rfl⟩
      rfl
  · rename_i h
    constructor
    · intro hok
      cases hok
    · intro hok
      rcases hok with ⟨hle, hlt, _⟩
      exact absurd ⟨hle, hlt⟩ h

/-!
# Extraction step by step
-/

section Steps

variable {low high : UInt32}

theorem exists_width (hle : low.toNat ≤ high.toNat) (hlt : high.toNat < 64) :
    ∃ width, width? low high = some width ∧ width.toNat = high.toNat - low.toNat + 1 := by
  have hword : low ≤ high := UInt32.le_iff_toNat_le.mpr hle
  have hdistance : (high - low).toNat = high.toNat - low.toNat :=
    UInt32.toNat_sub_of_le _ _ hword
  have hsum : (high - low).toNat + (1 : UInt32).toNat < UInt32.size := by
    rw [hdistance, UInt32.toNat_one, UInt32.size]
    omega
  refine ⟨high - low + 1, ?_, ?_⟩
  · rw [width?, Word.sub?_of_le hword]
    exact Word.add?_of_lt hsum
  · rw [UInt32.toNat_add, Nat.mod_eq_of_lt hsum, hdistance, UInt32.toNat_one]

theorem lowMask?_of_lt {width : UInt32} (h : width.toNat < 64) :
    lowMask? width = some ((1 <<< UInt64.ofNat width.toNat) - 1) := by
  rw [lowMask?, Word.shiftLeft?_of_lt 1 h]
  exact Word.sub?_of_le (one_le_oneBit h)

theorem extract?_of_ofBits {slice : BitSlice} (value : UInt64)
    (h : ofBits low.toNat high.toNat = .ok slice) :
    extract? value low high = some (slice.extract value) := by
  rcases ofBits_eq_ok.mp h with ⟨hle, hlt, rfl⟩
  rcases exists_width hle hlt with ⟨width, hwidth, hbits⟩
  have hshifted := Word.shiftRight?_of_lt value (Nat.lt_of_le_of_lt hle hlt)
  have hall : width = 64 ↔ width.toNat = 64 := UInt32.toNat_inj.symm
  simp only [extract?, extract, hwidth, hshifted, Option.bind_eq_bind, Option.bind_some, hall,
    ← hbits]
  by_cases hfull : width.toNat = 64
  · rw [if_pos hfull, if_pos hfull]
    rfl
  · have hnarrow : width.toNat < 64 := by
      omega
    rw [if_neg hfull, if_neg hfull, lowMask?_of_lt hnarrow]
    rfl

example : (ofBits 0 64).toOption = none ∧ extract? 5 0 64 = none := by
  decide

end Steps

/-!
# Cuts
-/

/-- Growing bit positions after `low`, the last of them the end of a word. -/
inductive CutsFrom : Nat → List Nat → Prop where
  | last : CutsFrom 64 []
  | cut {low next : Nat} {cuts : List Nat} (hlt : low < next) (h : CutsFrom next cuts) :
      CutsFrom low (next :: cuts)

def spans : Nat → List Nat → List (Nat × Nat)
  | _, [] => []
  | low, next :: cuts => (low, next) :: spans next cuts

def placedSum (value : UInt64) (spans : List (Nat × Nat)) (slices : List BitSlice) : Nat :=
  (List.zipWith (fun span slice => (slice.extract value).toNat * 2 ^ span.1) spans slices).sum

/-- The slices of the spans are accepted, their parts fit the spans, and they add up to `n`. -/
structure Recomposes (spans : List (Nat × Nat)) (value : UInt64) (slices : List BitSlice)
    (n : Nat) : Prop where
  accepted : List.Forall₂ (fun span slice => ofBits span.1 (span.2 - 1) = .ok slice) spans slices
  fits : List.Forall₂ (fun span slice => (slice.extract value).toNat < 2 ^ (span.2 - span.1))
    spans slices
  sum : placedSum value spans slices = n

theorem CutsFrom.le {low : Nat} {cuts : List Nat} (h : CutsFrom low cuts) : low ≤ 64 := by
  induction h with
  | last => exact Nat.le_refl 64
  | cut hlt _ ih => omega

theorem part_add_rest (n : Nat) {low next : Nat} (hle : low ≤ next) :
    n / 2 ^ low % 2 ^ (next - low) * 2 ^ low + n / 2 ^ next * 2 ^ next =
      n / 2 ^ low * 2 ^ low := by
  have hpower : 2 ^ next = 2 ^ (next - low) * 2 ^ low := by
    rw [← Nat.pow_add, Nat.sub_add_cancel hle]
  have hrest : n / 2 ^ next = n / 2 ^ low / 2 ^ (next - low) := by
    rw [Nat.div_div_eq_div_mul, hpower, Nat.mul_comm]
  rw [hrest, hpower, ← Nat.mul_assoc, ← Nat.add_mul, Nat.mod_add_div']

theorem exists_slice {low next : Nat} (hlt : low < next) (hle : next ≤ 64) (value : UInt64) :
    ∃ slice, ofBits low (next - 1) = .ok slice ∧
      (slice.extract value).toNat = value.toNat / 2 ^ low % 2 ^ (next - low) := by
  have hwidth : next - 1 - low + 1 = next - low := by
    omega
  refine ⟨.bits low (next - 1) (by omega) (by omega), ofBits_eq_ok.mpr ⟨_, _, rfl⟩, ?_⟩
  rw [toNat_extract, part, hwidth]

theorem exists_recomposes {low : Nat} {cuts : List Nat} (h : CutsFrom low cuts) (value : UInt64) :
    ∃ slices, Recomposes (spans low cuts) value slices (value.toNat / 2 ^ low * 2 ^ low) := by
  induction h with
  | last =>
      have hnone : value.toNat / 2 ^ 64 = 0 := Nat.div_eq_of_lt value.toNat_lt
      refine ⟨[], .nil, .nil, ?_⟩
      rw [hnone, Nat.zero_mul]
      rfl
  | @cut low next cuts hlt hcuts ih =>
      rcases ih with ⟨slices, hslices⟩
      rcases exists_slice hlt hcuts.le value with ⟨slice, hslice, hpart⟩
      refine ⟨slice :: slices, .cons hslice hslices.accepted, .cons ?_ hslices.fits, ?_⟩
      · rw [hpart]
        exact Nat.mod_lt _ (Nat.two_pow_pos _)
      · rw [← part_add_rest value.toNat (Nat.le_of_lt hlt), ← hpart, ← hslices.sum]
        rfl

/-- However a word is cut, its slices are accepted and make up the value again; and no
step overflows in the extraction of any slice that is accepted. -/
theorem recomposes_of_cuts {cuts : List Nat} (h : CutsFrom 0 cuts) (value : UInt64) :
    (∃ slices, Recomposes (spans 0 cuts) value slices value.toNat) ∧
      ∀ (low high : UInt32) (slice : BitSlice), ofBits low.toNat high.toNat = .ok slice →
        extract? value low high = some (slice.extract value) := by
  constructor
  · have hslices := exists_recomposes h value
    rw [Nat.pow_zero, Nat.div_one, Nat.mul_one] at hslices
    exact hslices
  · intro low high slice hslice
    exact extract?_of_ofBits value hslice

theorem recomposes_of_cuts_sample :
    CutsFrom 0 [64] ∧ CutsFrom 0 [1, 32, 63, 64] ∧
      (∃ slices, Recomposes (spans 0 [64]) 0xFEDCBA9876543211 slices 0xFEDCBA9876543211) ∧
      (∃ slices, Recomposes (spans 0 [1, 32, 63, 64]) 0xFEDCBA9876543211 slices
        0xFEDCBA9876543211) ∧
      (ofBits 63 63).toOption.isSome = true ∧ extract? 0xFEDCBA9876543211 63 63 = some 1 := by
  have hwhole : CutsFrom 0 [64] := .cut (by decide) .last
  have hcuts : CutsFrom 0 [1, 32, 63, 64] :=
    .cut (by decide) (.cut (by decide) (.cut (by decide) (.cut (by decide) .last)))
  have hlast : ofBits 63 63 = .ok (.bits 63 63 (by decide) (by decide)) := by
    decide
  refine ⟨hwhole, hcuts, (recomposes_of_cuts hwhole _).left, (recomposes_of_cuts hcuts _).left,
    by decide, ?_⟩
  exact (recomposes_of_cuts hcuts _).right 63 63 _ hlast

end BitSlice
end Stimulus
