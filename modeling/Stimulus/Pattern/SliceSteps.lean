import Stimulus.Pattern.Register

/-!
# Slices in word arithmetic

## Steps that can overflow

The positions of a slice are words of 32 bits, the value is a word of 64 bits.  A
difference below zero, a sum beyond the word and a shift by 64 bits or more have no
result here, so that an extraction has a result only if each of its steps has one.
-/

namespace Stimulus

namespace Word

def sub? {α : Type} [LE α] [DecidableLE α] [Sub α] (a b : α) : Option α :=
  if b ≤ a then some (a - b) else none

def add? (a b : UInt32) : Option UInt32 :=
  if a.toNat + b.toNat < UInt32.size then some (a + b) else none

def shiftRight? (a : UInt64) (amount : UInt32) : Option UInt64 :=
  if amount < 64 then some (a >>> amount.toUInt64) else none

def shiftLeft? (a : UInt64) (amount : UInt32) : Option UInt64 :=
  if amount < 64 then some (a <<< amount.toUInt64) else none

theorem sub?_of_le {α : Type} [LE α] [DecidableLE α] [Sub α] {a b : α} (h : b ≤ a) :
    sub? a b = some (a - b) :=
  if_pos h

theorem add?_of_lt {a b : UInt32} (h : a.toNat + b.toNat < UInt32.size) : add? a b = some (a + b) :=
  if_pos h

variable {amount : UInt32}

theorem shiftRight?_of_lt (a : UInt64) (h : amount.toNat < 64) :
    shiftRight? a amount = some (a >>> UInt64.ofNat amount.toNat) := by
  rw [UInt64.ofNat_uInt32ToNat]
  exact if_pos (UInt32.lt_iff_toNat_lt.mpr h)

theorem shiftLeft?_of_lt (a : UInt64) (h : amount.toNat < 64) :
    shiftLeft? a amount = some (a <<< UInt64.ofNat amount.toNat) := by
  rw [UInt64.ofNat_uInt32ToNat]
  exact if_pos (UInt32.lt_iff_toNat_lt.mpr h)

end Word

namespace BitSlice

def width? (low high : UInt32) : Option UInt32 := do
  let distance ← Word.sub? high low
  Word.add? distance 1

def lowMask? (width : UInt32) : Option UInt64 := do
  let bit ← Word.shiftLeft? 1 width
  Word.sub? bit 1

/-- The bits from `low` to `high`, if no step of their extraction overflows. -/
def extract? (value : UInt64) (low high : UInt32) : Option UInt64 := do
  let width ← width? low high
  let shifted ← Word.shiftRight? value low
  if width = 64 then
    return shifted
  else
    let mask ← lowMask? width
    return shifted &&& mask

end BitSlice
end Stimulus
