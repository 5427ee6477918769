import Stimulus.Refusal

/-!
# Argument positions

## Visiting and replacing

The argument positions of a primitive are visited depth first, each with the
primitive that owns it; a nested primitive is visited before its own arguments.
Replacing descends into nested primitives, but not into replacements.
-/

namespace Stimulus

def Argument.randomIn (min max : Int64) : Except ArgumentFault Argument :=
  if h : min ≤ max then .ok (.random ⟨min, max, h⟩)
  else .error (.boundsReversed min max)

/-- One argument position: the argument and the primitive that owns it directly. -/
structure Slot where
  argument : Argument
  owner : Primitive
deriving DecidableEq

mutual

def Argument.slots : Argument → List Slot
  | .primitive kind name args => Argument.slotsOf ⟨kind, name, args⟩ args
  | _ => []

def Argument.slotsOf (owner : Primitive) : List Argument → List Slot
  | [] => []
  | a :: rest => ⟨a, owner⟩ :: (a.slots ++ Argument.slotsOf owner rest)

end

def Primitive.slots (p : Primitive) : List Slot :=
  Argument.slotsOf p p.args

mutual

/-- Replaces an argument by `f`, or looks for replacements inside it. -/
def Argument.replace (f : Argument → Option Argument) : Argument → Argument
  | .primitive kind name args =>
      (f (.primitive kind name args)).getD
        (.primitive kind name (Argument.replaceAll f args))
  | a => (f a).getD a

def Argument.replaceAll (f : Argument → Option Argument) :
    List Argument → List Argument
  | [] => []
  | a :: rest => a.replace f :: Argument.replaceAll f rest

end

def Primitive.replace (f : Argument → Option Argument) (p : Primitive) : Primitive :=
  { p with args := Argument.replaceAll f p.args }

def Primitive.substitute (old new : Argument) (p : Primitive) : Primitive :=
  p.replace fun a => if a = old then some new else none

end Stimulus
