import Stimulus.Refusal

/-!
# Distributions

## Weighted ranges of values

A distribution is a list of ranges with biases.  Nothing is sampled here: the
engine picks a range in proportion to its bias, then a value in it.

## Text

Values are written as hexadecimal words.
-/

namespace Stimulus

inductive ValueRange where
  | set (values : List Int64)
  | interval (min max : Int64)
deriving DecidableEq

namespace ValueRange

/-- The interval from `start` up to, but not including, `stop`.  No word lies
below the least one, so that end gives the empty set. -/
def halfOpen (start stop : Int64) : ValueRange :=
  if stop = Int64.minValue then set [] else interval start (stop - 1)

def single (value : Int64) : ValueRange :=
  set [value]

def check : ValueRange → Except ArgumentFault Unit
  | set values => if values.isEmpty then .error .noValues else .ok ()
  | interval min max =>
      if max < min then .error (.boundsReversed min max) else .ok ()

/-- How many values the range lists, as an unsigned word of 128 bits; a set counts
every value as often as it stands there. -/
def size : ValueRange → Nat
  | set values => values.length
  | interval min max => (BitVec.ofInt 128 (max.toInt - min.toInt + 1)).toNat

def text : ValueRange → String
  | set values => "[" ++ ", ".intercalate (values.map Text.hexWord) ++ "]"
  | interval min max => Text.hexWord min ++ "..=" ++ Text.hexWord max

end ValueRange

structure BiasedRange where
  values : ValueRange
  bias : Nat
deriving DecidableEq

namespace BiasedRange

def checked (values : ValueRange) (bias : Nat) : Except ArgumentFault BiasedRange := do
  values.check
  return ⟨values, bias⟩

def text (r : BiasedRange) : String :=
  r.values.text ++ "@" ++ toString r.bias

end BiasedRange

structure Distribution where
  ranges : List BiasedRange
deriving DecidableEq

namespace Distribution

def biasWord (ranges : List BiasedRange) : UInt64 :=
  ranges.foldl (fun total r => total + .ofNat r.bias) 0

def biasSum (d : Distribution) : Nat :=
  (biasWord d.ranges).toNat

def checkRanges : List BiasedRange → Except ArgumentFault Unit
  | [] => .ok ()
  | r :: rest => do
      r.values.check
      checkRanges rest

/-- A distribution needs a range, no degenerate range, and a positive total bias. -/
def ofRanges (ranges : List BiasedRange) : Except ArgumentFault Distribution := do
  if ranges.isEmpty then
    throw .noRanges
  checkRanges ranges
  let d : Distribution := ⟨ranges⟩
  if d.biasSum = 0 then
    throw .noBias
  return d

def ofValues (ranges : List (ValueRange × Nat)) : Except ArgumentFault Distribution := do
  let checked ← ranges.mapM fun r => BiasedRange.checked r.1 r.2
  ofRanges checked

def text (d : Distribution) : String :=
  "dist(" ++ ", ".intercalate (d.ranges.map BiasedRange.text) ++ ")"

end Distribution
end Stimulus
