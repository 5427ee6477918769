import Stimulus.Proofs.FilledSections

/-!
# Ranges of number types

## Represented numbers

The words of a number type stand for the numbers from zero on, or in two's complement
for as many below zero as from zero on.

## What the check leaves open

Below 127 bits the check of a type accepts the numbers that the type represents.  From
there on it accepts every value, which is too much for all unsigned types and for the
signed one of 127 bits.
-/

namespace Stimulus
namespace Data

theorem wordCount_cast (bits : Nat) : (wordCount bits : Int) = 2 ^ bits :=
  Nat.cast_pow 2 bits

theorem wordCount_le {bits bits' : Nat} (h : bits ≤ bits') : wordCount bits ≤ wordCount bits' :=
  Nat.pow_le_pow_right (by decide) h

namespace NumberType

/-- The type has a word for the number. -/
def Represents (t : NumberType) (n : Int) : Prop :=
  if t.signed then -2 ^ (t.bits - 1) ≤ n ∧ n < 2 ^ (t.bits - 1)
  else 0 ≤ n ∧ n < 2 ^ t.bits

/-- The check of the type accepts exactly the numbers that it represents. -/
def Exact (t : NumberType) : Prop :=
  ∀ value, t.check value = .ok () ↔ t.Represents value.val

variable {t : NumberType} {value : Value}

theorem check_eq_ok :
    t.check value = .ok () ↔ t.limits.1 ≤ value.val ∧ value.val ≤ t.limits.2 := by
  unfold check
  split
  · rename_i houtside
    constructor
    · intro h
      cases h
    · intro h
      omega
  · rename_i hinside
    simp only [true_iff]
    omega

/-!
# Narrow types
-/

theorem represents_of_check_zero (hbits : t.bits = 0) (h : t.check value = .ok ()) :
    t.Represents value.val := by
  rw [check_eq_ok, limits, if_pos hbits] at h
  dsimp only at h
  have hzero : value.val = 0 := by
    omega
  rw [hzero]
  unfold Represents
  split <;> simp [hbits]

theorem check_narrow (hpositive : 0 < t.bits) (hnarrow : t.bits < 127) :
    t.check value = .ok () ↔ t.Represents value.val := by
  have hnonzero : ¬ t.bits = 0 := Nat.ne_of_gt hpositive
  have hnotwide : ¬ 127 ≤ t.bits := Nat.not_le.mpr hnarrow
  rw [check_eq_ok, limits, if_neg hnonzero, if_neg hnotwide, Represents]
  split
  · dsimp only
    rw [wordCount_cast]
    omega
  · dsimp only
    rw [wordCount_cast]
    omega

/-!
# Wide types
-/

theorem check_wide (hwide : 127 ≤ t.bits) : t.check value = .ok () := by
  have hnonzero : ¬ t.bits = 0 := by
    omega
  have hlower := value.lower
  have hupper := value.upper
  rw [check_eq_ok, limits, if_neg hnonzero, if_pos hwide]
  dsimp only
  omega

theorem represents_wide (hsigned : t.signed = true) (hwide : 127 < t.bits) :
    t.Represents value.val := by
  have hlower := value.lower
  have hupper := value.upper
  have hwords : wordCount 127 ≤ wordCount (t.bits - 1) := wordCount_le (Nat.le_sub_one_of_lt hwide)
  rw [Represents, if_pos hsigned, ← wordCount_cast]
  omega

theorem nonneg_of_represents {n : Int} (hunsigned : t.signed = false) (h : t.Represents n) :
    0 ≤ n := by
  rw [Represents, hunsigned] at h
  exact h.left

theorem not_represents_127 (hsigned : t.signed = true) (hbits : t.bits = 127) :
    ¬ t.Represents (2 ^ 126) := by
  rw [Represents, if_pos hsigned, hbits]
  omega

/-!
# Accepted numbers
-/

theorem check_iff (hpositive : 0 < t.bits) :
    t.check value = .ok () ↔ t.Represents value.val ∨ 127 ≤ t.bits := by
  by_cases hwide : 127 ≤ t.bits
  · simp [check_wide hwide, hwide]
  · rw [check_narrow hpositive (Nat.not_le.mp hwide)]
    simp [hwide]

theorem represents_of_check (h : t.check value = .ok ()) :
    t.Represents value.val ∨ 127 ≤ t.bits := by
  by_cases hbits : t.bits = 0
  · exact Or.inl (represents_of_check_zero hbits h)
  · exact (check_iff (Nat.pos_of_ne_zero hbits)).mp h

def minusOne : Value :=
  ⟨-1, by decide, by decide⟩

def beyond127 : Value :=
  ⟨2 ^ 126, by decide, by decide⟩

theorem exact_iff (hpositive : 0 < t.bits) :
    t.Exact ↔ t.bits < 127 ∨ (t.signed = true ∧ 127 < t.bits) := by
  constructor
  · intro h
    by_contra hneither
    rw [not_or] at hneither
    have hwide : 127 ≤ t.bits := Nat.not_lt.mp hneither.left
    cases hsigned : t.signed with
    | false =>
        have hnegative := (h minusOne).mp (check_wide hwide)
        exact absurd (nonneg_of_represents hsigned hnegative) (by decide)
    | true =>
        have hbits : t.bits = 127 :=
          Nat.le_antisymm (Nat.not_lt.mp fun hlarge => hneither.right ⟨hsigned, hlarge⟩) hwide
        exact not_represents_127 hsigned hbits ((h beyond127).mp (check_wide hwide))
  · intro h value
    rcases h with hnarrow | ⟨hsigned, hwide⟩
    · exact check_narrow hpositive hnarrow
    · have hrepresented : t.Represents value.val := represents_wide hsigned hwide
      simp [check_wide (Nat.le_of_lt hwide), hrepresented]

end NumberType

/-!
# Stored numbers
-/

theorem Writer.checked_of_run {operations : List Operation} {s : Section}
    (hs : s ∈ (({} : Writer).run operations).sections) {text : String} {address : UInt64}
    {t : NumberType} {listed : List Value} (hrecord : .values text address t listed ∈ s.records) :
    ∀ value ∈ listed, t.check value = .ok () := by
  rcases run_fills .start .start operations with ⟨hconfigured, hfills⟩
  cases hconfig : (({} : Writer).run operations).layout.config with
  | none =>
      rw [hconfigured.missing hconfig] at hs
      cases hs
  | some config =>
      have hsound := (hfills config hconfig).sound s hs _ hrecord
      exact hsound.right.right

/-- What the check of a type accepts, when that is what the type represents, and which
numbers of the type therefore stand in the sections of a writer. -/
structure NumberType.RangeChecked (t : NumberType) : Prop where
  accepts_iff : ∀ value, t.check value = .ok () ↔ t.Represents value.val ∨ 127 ≤ t.bits
  exact_iff : t.Exact ↔ t.bits < 127 ∨ (t.signed = true ∧ 127 < t.bits)
  stored : ∀ operations, ∀ s ∈ (({} : Writer).run operations).sections,
    ∀ text address listed, .values text address t listed ∈ s.records →
      ∀ value ∈ listed, t.Represents value.val ∨ 127 ≤ t.bits

/-- The check of a type with bits is exact below 127 bits, and for signed types from 128
bits on.  Only types of 127 bits or more get numbers that they do not represent. -/
theorem NumberType.rangeChecked_of_pos {t : NumberType} (hpositive : 0 < t.bits) :
    t.RangeChecked where
  accepts_iff _ := check_iff hpositive
  exact_iff := NumberType.exact_iff hpositive
  stored _ _ hs _ _ _ hrecord value hvalue :=
    represents_of_check (Writer.checked_of_run hs hrecord value hvalue)

theorem NumberType.rangeChecked_of_pos_sample :
    0 < (card 32).bits ∧
      .values ".word" 0 (card 32) [⟨1, by decide, by decide⟩, ⟨2, by decide, by decide⟩] ∈
        (({} : Writer).run sampleOperations).sections.flatMap Section.records ∧
      (card 32).RangeChecked :=
  ⟨by decide, by decide, NumberType.rangeChecked_of_pos (by decide)⟩

def wideOperations : List Operation :=
  [.configure ⟨".data", "M", 8⟩, .declareNumbers "octa" ".octa" (.card 128), .openSection,
    .placeNumbers "octa" [NumberType.minusOne], .closeSection]

theorem NumberType.negative_stored_card128 :
    (card 128).check minusOne = .ok () ∧ ¬ (card 128).Represents minusOne.val ∧
      .values ".octa" 0 (card 128) [minusOne] ∈
        (({} : Writer).run wideOperations).sections.flatMap Section.records := by
  refine ⟨by decide, ?_, by decide⟩
  intro h
  exact absurd (nonneg_of_represents rfl h) (by decide)

end Data
end Stimulus
