import Mathlib.Data.List.Forall2
import Stimulus.Proofs.Unrolling

/-!
# Loading a value into a register

## Slices as quotients and remainders

Shifting and masking leave the remainder of a quotient of the value.  It needs all 64
bits only where the slice has all of them, and every other slice fits a signed word.

## Instantiation

The calls of a register preparator are instantiated all or none.  A target of another
mode is refused before anything else; a value that is no signed word is refused where
some operand is the whole of it.
-/

namespace Stimulus

open Checked

/-!
# Slices
-/

theorem shiftAmount_eq {n : Nat} (h : n < 64) : (UInt64.ofNat n).toNat % 64 = n := by
  rw [UInt64.toNat_ofNat']
  omega

theorem toNat_oneBit {n : Nat} (h : n < 64) : ((1 : UInt64) <<< UInt64.ofNat n).toNat = 2 ^ n := by
  have hpower : 2 ^ n < 2 ^ 64 := Nat.pow_lt_pow_right (by decide) h
  rw [UInt64.toNat_shiftLeft, shiftAmount_eq h, Nat.shiftLeft_eq, UInt64.toNat_one, Nat.one_mul,
    Nat.mod_eq_of_lt hpower]

theorem one_le_oneBit {n : Nat} (h : n < 64) : (1 : UInt64) ≤ 1 <<< UInt64.ofNat n := by
  rw [UInt64.le_iff_toNat_le, toNat_oneBit h, UInt64.toNat_one]
  exact Nat.one_le_two_pow

theorem toNat_lowMask {width : Nat} (h : width < 64) :
    ((1 <<< UInt64.ofNat width) - 1 : UInt64).toNat = 2 ^ width - 1 := by
  rw [UInt64.toNat_sub_of_le _ _ (one_le_oneBit h), toNat_oneBit h, UInt64.toNat_one]

namespace BitSlice

/-- The number that the bits of the slice stand for, bit `low` counting one. -/
def part (n : Nat) : BitSlice → Nat
  | whole => n
  | bits low high _ _ => n / 2 ^ low % 2 ^ (high - low + 1)

def IsFull : BitSlice → Prop
  | whole => True
  | bits low high _ _ => low = 0 ∧ high = 63

variable {slice : BitSlice} {value : UInt64}

theorem toNat_extract (slice : BitSlice) (value : UInt64) :
    (slice.extract value).toNat = slice.part value.toNat := by
  cases slice with
  | whole =>
      rfl
  | bits low high hle hlt =>
      have hlow : low < 64 := Nat.lt_of_le_of_lt hle hlt
      have hshifted : (value >>> UInt64.ofNat low).toNat = value.toNat / 2 ^ low := by
        rw [UInt64.toNat_shiftRight, shiftAmount_eq hlow, Nat.shiftRight_eq_div_pow]
      simp only [extract, part]
      split
      · rename_i hwidth
        have hbound : value.toNat / 2 ^ low < 2 ^ 64 :=
          Nat.lt_of_le_of_lt (Nat.div_le_self _ _) value.toNat_lt
        rw [hshifted, hwidth, Nat.mod_eq_of_lt hbound]
      · rename_i hwidth
        have hnarrow : high - low + 1 < 64 := by
          omega
        rw [UInt64.toNat_and, toNat_lowMask hnarrow, hshifted,
          Nat.and_two_pow_sub_one_eq_mod]

example : (bits 16 31 (by decide) (by decide)).part 0xDEADBEEF = 0xDEAD := by
  decide

theorem part_of_isFull (h : slice.IsFull) (value : UInt64) :
    slice.part value.toNat = value.toNat := by
  cases slice with
  | whole =>
      rfl
  | bits low high hle hlt =>
      rcases h with ⟨rfl, rfl⟩
      rw [part, Nat.pow_zero, Nat.div_one]
      exact Nat.mod_eq_of_lt value.toNat_lt

theorem part_lt_of_not_isFull (h : ¬ slice.IsFull) (n : Nat) : slice.part n < 2 ^ 63 := by
  cases slice with
  | whole =>
      exact absurd trivial h
  | bits low high hle hlt =>
      have hwidth : high - low + 1 ≤ 63 := by
        simp only [IsFull] at h
        omega
      have hpart : n / 2 ^ low % 2 ^ (high - low + 1) < 2 ^ (high - low + 1) :=
        Nat.mod_lt _ (Nat.two_pow_pos _)
      exact Nat.lt_of_lt_of_le hpart (Nat.pow_le_pow_right (by decide) hwidth)

theorem part_lt_iff :
    slice.part value.toNat < 2 ^ 63 ↔ (slice.IsFull → value.toNat < 2 ^ 63) := by
  by_cases h : slice.IsFull
  · rw [part_of_isFull h]
    simp only [h, forall_const]
  · simp only [h, part_lt_of_not_isFull h, false_implies]

end BitSlice

/-!
# Words as operands
-/

namespace Argument

variable {word : UInt64}

theorem ofWord_eq_error {fault : ArgumentFault} :
    ofWord word = .error fault ↔
      2 ^ 63 ≤ word.toNat ∧ fault = .doesNotFit word.toNat 64 true := by
  unfold ofWord
  split
  · rename_i h
    simp only [reduceCtorEq, false_iff, not_and]
    intro hle
    exact absurd h (Nat.not_lt.mpr hle)
  · rename_i h
    rw [Except.error.injEq, eq_comm]
    exact (and_iff_right (Nat.not_lt.mp h)).symm

end Argument

theorem toInt_toInt64 {word : UInt64} (h : word.toNat < 2 ^ 63) :
    word.toInt64.toInt = word.toNat := by
  have hdouble : 2 * word.toBitVec.toNat < 2 ^ 64 := by
    rw [UInt64.toNat_toBitVec]
    omega
  exact BitVec.toInt_eq_toNat_of_lt hdouble

/-!
# Patterns with one fault

Where every hole that cannot be filled has the same fault, that is the fault of the
whole list.
-/

namespace CallPattern

variable {ρ : Type} {fill : ρ → Except ArgumentFault Argument} {fault cause : ArgumentFault}

theorem fillAll_fault (hfill : ∀ h cause, fill h = .error cause → cause = fault)
    {operands : List (Operand ρ)} (h : fillAll fill operands = .error cause) :
    cause = fault := by
  induction operands with
  | nil =>
      cases h
  | cons operand rest ih =>
      rcases bind_eq_error.mp h with hfirst | ⟨_, _, htail⟩
      · cases operand with
        | literal argument =>
            cases hfirst
        | hole hole =>
            exact hfill hole cause hfirst
      · rcases bind_eq_error.mp htail with hrest | ⟨_, _, hpure⟩
        · exact ih hrest
        · cases hpure

theorem instantiate_fault (hfill : ∀ h cause, fill h = .error cause → cause = fault)
    {c : CallPattern ρ} (h : c.instantiate fill = .error cause) : cause = fault := by
  rcases bind_eq_error.mp h with hfilled | ⟨_, _, hpure⟩
  · exact fillAll_fault hfill hfilled
  · cases hpure

theorem instantiateAll_fault (hfill : ∀ h cause, fill h = .error cause → cause = fault)
    {patterns : List (CallPattern ρ)} (h : instantiateAll fill patterns = .error cause) :
    cause = fault := by
  induction patterns with
  | nil =>
      cases h
  | cons c rest ih =>
      rcases bind_eq_error.mp h with hfirst | ⟨_, _, htail⟩
      · exact instantiate_fault hfill hfirst
      · rcases bind_eq_error.mp htail with hrest | ⟨_, _, hpure⟩
        · exact ih hrest
        · cases hpure

end CallPattern

/-!
# Loaded calls
-/

inductive Operand.Loads (target : Primitive) (n : Nat) :
    Operand RegisterHole → Argument → Prop
  | literal (argument : Argument) : Loads target n (.literal argument) argument
  | target : Loads target n (.hole .target) target.toArgument
  | value {slice : BitSlice} {word : Int64} (hword : word.toInt = slice.part n) :
      Loads target n (.hole (.value slice)) (.concrete word)

structure CallPattern.Loads (target : Primitive) (n : Nat) (c : CallPattern RegisterHole)
    (call : Primitive) : Prop where
  kind : call.kind = .instruction
  name : call.name = c.mnemonic
  args : List.Forall₂ (Operand.Loads target n) c.operands call.args

namespace RegisterPreparator

def Targets (p : RegisterPreparator) (target : Primitive) : Prop :=
  target.kind = .mode ∧ Key.ofName target.name = Key.ofName p.target

def UsesAllBits (p : RegisterPreparator) : Prop :=
  ∃ c ∈ p.calls, ∃ slice : BitSlice, .hole (.value slice) ∈ c.operands ∧ slice.IsFull

/-- Some operand of some call would have to be the value, which is no signed word. -/
def TooLarge (p : RegisterPreparator) (value : UInt64) : Prop :=
  2 ^ 63 ≤ value.toNat ∧ p.UsesAllBits

/-- The outcome of loading `value` into `target`: a target of another mode is refused, then
a value that is too large for an operand, and else there is one call for each pattern. -/
structure LoadsExactly (p : RegisterPreparator) (target : Primitive) (value : UInt64) :
    Prop where
  refused_iff : p.instantiate target value = .error (.notAMode .preparatorTarget target) ↔
    ¬ p.Targets target
  tooLarge_iff : p.instantiate target value = .error (.doesNotFit value.toNat 64 true) ↔
    p.Targets target ∧ p.TooLarge value
  loaded : p.Targets target → ¬ p.TooLarge value →
    ∃ calls, p.instantiate target value = .ok calls ∧
      List.Forall₂ (CallPattern.Loads target value.toNat) p.calls calls

def holeValue (target : Primitive) (value : UInt64) : RegisterHole → Argument
  | .target => target.toArgument
  | .value slice => .concrete (slice.extract value).toInt64

def HoleFits (value : UInt64) : RegisterHole → Prop
  | .target => True
  | .value slice => slice.part value.toNat < 2 ^ 63

variable {p : RegisterPreparator} {target : Primitive} {value : UInt64}

theorem fill_eq_ok (hole : RegisterHole) (a : Argument) :
    fill target value hole = .ok a ↔ HoleFits value hole ∧ a = holeValue target value hole := by
  cases hole with
  | target =>
      simp [fill, HoleFits, holeValue, eq_comm]
  | value slice =>
      rw [fill, Argument.ofWord_eq_ok, BitSlice.toNat_extract]
      rfl

theorem fill_eq_error {hole : RegisterHole} {cause : ArgumentFault}
    (h : fill target value hole = .error cause) : cause = .doesNotFit value.toNat 64 true := by
  cases hole with
  | target =>
      cases h
  | value slice =>
      rcases Argument.ofWord_eq_error.mp h with ⟨hlarge, rfl⟩
      rw [BitSlice.toNat_extract] at hlarge ⊢
      have hfull : slice.IsFull := by
        by_contra hpart
        exact Nat.not_lt.mpr hlarge (BitSlice.part_lt_of_not_isFull hpart _)
      rw [BitSlice.part_of_isFull hfull]

theorem holesFit_iff :
    (∀ c ∈ p.calls, ∀ h, .hole h ∈ c.operands → HoleFits value h) ↔
      ¬ p.TooLarge value := by
  constructor
  · intro hfits htoolarge
    rcases htoolarge with ⟨hlarge, c, hc, slice, hslice, hfull⟩
    have hpart : slice.part value.toNat < 2 ^ 63 := hfits c hc _ hslice
    exact Nat.not_lt.mpr hlarge (BitSlice.part_lt_iff.mp hpart hfull)
  · intro hfits c hc hole hhole
    cases hole with
    | target =>
        trivial
    | value slice =>
        refine BitSlice.part_lt_iff.mpr ?_
        intro hfull
        by_contra hlarge
        exact hfits ⟨Nat.not_lt.mp hlarge, c, hc, slice, hhole, hfull⟩

theorem loads_subst {operand : Operand RegisterHole}
    (hfits : ∀ h, operand = .hole h → HoleFits value h) :
    operand.Loads target value.toNat (operand.subst (holeValue target value)) := by
  cases operand with
  | literal argument =>
      exact .literal argument
  | hole hole =>
      cases hole with
      | target =>
          exact .target
      | value slice =>
          have hword : (slice.extract value).toNat < 2 ^ 63 := by
            rw [BitSlice.toNat_extract]
            exact hfits _ rfl
          refine .value ?_
          rw [toInt_toInt64 hword, BitSlice.toNat_extract]

theorem loads_pattern {c : CallPattern RegisterHole}
    (hfits : ∀ h, .hole h ∈ c.operands → HoleFits value h) :
    c.Loads target value.toNat (c.subst (holeValue target value)) where
  kind := rfl
  name := rfl
  args := by
    rw [CallPattern.subst, List.forall₂_map_right_iff, List.forall₂_same]
    intro operand hoperand
    refine loads_subst ?_
    intro h hhole
    rw [hhole] at hoperand
    exact hfits h hoperand

theorem instantiate_of_targets (h : p.Targets target) :
    p.instantiate target value = CallPattern.instantiateAll (fill target value) p.calls :=
  if_pos h

theorem instantiate_of_not_targets (h : ¬ p.Targets target) :
    p.instantiate target value = .error (.notAMode .preparatorTarget target) :=
  if_neg h

theorem instantiate_of_tooLarge (htarget : p.Targets target) (hlarge : p.TooLarge value) :
    p.instantiate target value = .error (.doesNotFit value.toNat 64 true) := by
  rw [instantiate_of_targets htarget]
  cases h : CallPattern.instantiateAll (fill target value) p.calls with
  | ok calls =>
      rcases (CallPattern.instantiateAll_eq_ok fill_eq_ok).mp h with ⟨hfits, _⟩
      exact absurd hlarge (holesFit_iff.mp hfits)
  | error cause =>
      rw [CallPattern.instantiateAll_fault (fun _ _ => fill_eq_error) h]

theorem instantiate_of_not_tooLarge (htarget : p.Targets target) (hsmall : ¬ p.TooLarge value) :
    p.instantiate target value =
      .ok (p.calls.map (CallPattern.subst (holeValue target value))) := by
  rw [instantiate_of_targets htarget, CallPattern.instantiateAll_eq_ok fill_eq_ok]
  exact ⟨holesFit_iff.mpr hsmall, rfl⟩

/-- A preparator loads exactly the value that it is given, bit for bit. -/
theorem loadsExactly (p : RegisterPreparator) (target : Primitive) (value : UInt64) :
    p.LoadsExactly target value := by
  by_cases htarget : p.Targets target
  · by_cases hlarge : p.TooLarge value
    · have houtcome := instantiate_of_tooLarge htarget hlarge
      constructor
      case refused_iff =>
        simp [houtcome, htarget]
      case tooLarge_iff =>
        simp [houtcome, htarget, hlarge]
      case loaded =>
        intro _ hsmall
        exact absurd hlarge hsmall
    · have houtcome := instantiate_of_not_tooLarge htarget hlarge
      constructor
      case refused_iff =>
        simp [houtcome, htarget]
      case tooLarge_iff =>
        simp [houtcome, hlarge]
      case loaded =>
        intro _ _
        refine ⟨_, houtcome, ?_⟩
        rw [List.forall₂_map_right_iff, List.forall₂_same]
        intro c hc
        exact loads_pattern (holesFit_iff.mpr hlarge c hc)
  · have houtcome : p.instantiate target value = .error (.notAMode .preparatorTarget target) :=
      instantiate_of_not_targets htarget
    constructor
    case refused_iff =>
      simp [houtcome, htarget]
    case tooLarge_iff =>
      simp [houtcome, htarget]
    case loaded =>
      intro h
      exact absurd h htarget

end RegisterPreparator
end Stimulus
