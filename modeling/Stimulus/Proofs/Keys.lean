import Mathlib.Data.List.DropRight
import Stimulus.Text

/-!
# Keys read as names

## Stripping and folding

Folding a character makes it neither blank nor not, so a name may be folded before it is
stripped as well as after.  Both are done once and for all: a key that is read as a name
again has itself for its key.
-/

namespace Stimulus

namespace Text

variable (cs : List Char)

theorem strip_eq : strip cs = (cs.dropWhile isBlank).rdropWhile isBlank :=
  rfl

theorem dropWhile_strip : (strip cs).dropWhile isBlank = strip cs := by
  have hfront := List.dropWhile_eq_self_iff.mp (List.dropWhile_idempotent isBlank cs)
  rw [List.dropWhile_eq_self_iff]
  intro hpos
  have hinitial : strip cs <+: cs.dropWhile isBlank := List.rdropWhile_prefix _ _
  rw [hinitial.getElem hpos]
  exact hfront (Nat.lt_of_lt_of_le hpos hinitial.length_le)

theorem strip_strip : strip (strip cs) = strip cs := by
  rw [strip_eq (strip cs), dropWhile_strip, strip_eq, List.rdropWhile_idempotent]

theorem strip_map {f : Char → Char} (hf : ∀ c, isBlank (f c) = isBlank c) :
    strip (cs.map f) = (strip cs).map f := by
  have hblank : isBlank ∘ f = isBlank := funext hf
  have hdrop (l : List Char) : (l.map f).dropWhile isBlank = (l.dropWhile isBlank).map f := by
    rw [List.dropWhile_map, hblank]
  unfold strip
  rw [hdrop, ← List.map_reverse, hdrop, List.map_reverse]

end Text

namespace Key

theorem toNat_toLower (c : Char) :
    c.toLower.toNat = if 65 ≤ c.toNat ∧ c.toNat ≤ 90 then c.toNat + 32 else c.toNat := by
  have hrange : (c.val ≥ 'A'.val ∧ c.val ≤ 'Z'.val) ↔ 65 ≤ c.toNat ∧ c.toNat ≤ 90 := by
    simp [UInt32.le_iff_toNat_le]
  unfold Char.toLower
  by_cases hupper : 65 ≤ c.toNat ∧ c.toNat ≤ 90
  · rw [dif_pos (hrange.mpr hupper), if_pos hupper]
    show (c.val + 32).toNat = c.val.toNat + 32
    have hsmall : c.val.toNat ≤ 90 := hupper.right
    rw [UInt32.toNat_add]
    exact Nat.mod_eq_of_lt (by simpa using by omega)
  · rw [dif_neg (mt hrange.mp hupper), if_neg hupper]

theorem toLower_toLower (c : Char) : c.toLower.toLower = c.toLower := by
  apply Char.toNat_inj.mp
  rw [toNat_toLower c.toLower, toNat_toLower c]
  by_cases hupper : 65 ≤ c.toNat ∧ c.toNat ≤ 90
  · rw [if_pos hupper, if_neg (by omega)]
  · rw [if_neg hupper, if_neg hupper]

theorem isBlank_toLower (c : Char) : Text.isBlank c.toLower = Text.isBlank c := by
  by_cases hupper : 65 ≤ c.toNat ∧ c.toNat ≤ 90
  · -- Between `A` and `z` there are no blanks.
    have hletter (d : Char) (hd : 65 ≤ d.toNat ∧ d.toNat ≤ 122) : Text.isBlank d = false := by
      simp [Text.isBlank]
      omega
    have hlower := toNat_toLower c
    rw [if_pos hupper] at hlower
    rw [hletter c (by omega), hletter c.toLower (by omega)]
  · have hlower := toNat_toLower c
    rw [if_neg hupper] at hlower
    rw [Char.toNat_inj.mp hlower]

theorem isBlank_fold (c : Char) : Text.isBlank (fold c) = Text.isBlank c := by
  unfold fold
  split
  · rename_i hdash
    rw [hdash]
    rfl
  · exact isBlank_toLower c

theorem fold_fold (c : Char) : fold (fold c) = fold c := by
  by_cases hdash : c = '-'
  · rw [hdash]
    rfl
  · have hlower : c.toLower ≠ '-' := by
      intro hsame
      have hnumber := toNat_toLower c
      have hfortyFive : Char.toNat '-' = 45 := rfl
      rw [hsame, hfortyFive] at hnumber
      split at hnumber
      · omega
      · exact hdash (Char.toNat_inj.mp (hnumber.symm.trans hfortyFive.symm))
    rw [fold, fold, if_neg hdash, if_neg hlower, toLower_toLower]

theorem ofName_text (name : String) : ofName (ofName name).text = ofName name := by
  have hfold : fold ∘ fold = fold := funext fold_fold
  unfold ofName
  rw [String.toList_ofList, Text.strip_map _ isBlank_fold, Text.strip_strip, List.map_map, hfold]

end Key
end Stimulus
