import Stimulus.Primitive.Model

/-!
# Call patterns

## Instruction calls with holes

A preparator is a list of instruction calls some operands of which are left
open.  What a hole stands for is known only when the pattern is instantiated.
-/

namespace Stimulus

/-- An operand of a pattern: an argument as it stands, or a hole. -/
inductive Operand (ρ : Type) where
  | literal (argument : Argument)
  | hole (hole : ρ)
deriving DecidableEq

def Operand.fill {ρ : Type} (fill : ρ → Except ArgumentFault Argument) :
    Operand ρ → Except ArgumentFault Argument
  | literal argument => .ok argument
  | hole h => fill h

structure CallPattern (ρ : Type) where
  mnemonic : String
  operands : List (Operand ρ)
deriving DecidableEq

namespace CallPattern

variable {ρ : Type}

def fillAll (fill : ρ → Except ArgumentFault Argument) :
    List (Operand ρ) → Except ArgumentFault (List Argument)
  | [] => .ok []
  | operand :: rest => do
      let argument ← operand.fill fill
      let arguments ← fillAll fill rest
      return argument :: arguments

def instantiate (fill : ρ → Except ArgumentFault Argument) (c : CallPattern ρ) :
    Except ArgumentFault Primitive := do
  let args ← fillAll fill c.operands
  return ⟨.instruction, c.mnemonic, args⟩

def instantiateAll (fill : ρ → Except ArgumentFault Argument) :
    List (CallPattern ρ) → Except ArgumentFault (List Primitive)
  | [] => .ok []
  | c :: rest => do
      let call ← c.instantiate fill
      let calls ← instantiateAll fill rest
      return call :: calls

def canonical (model : Model) (c : CallPattern ρ) : Except Refusal (CallPattern ρ) := do
  let entry ← model.resolve .instruction c.mnemonic c.operands.length
  return { c with mnemonic := entry.name }

def canonicalAll (model : Model) :
    List (CallPattern ρ) → Except Refusal (List (CallPattern ρ))
  | [] => .ok []
  | c :: rest => do
      let first ← c.canonical model
      let others ← canonicalAll model rest
      return first :: others

end CallPattern

/-- An unsigned word as an operand; the engine takes signed words only. -/
def Argument.ofWord (value : UInt64) : Except ArgumentFault Argument :=
  if value.toNat < Nat.pow 2 63 then .ok (.concrete value.toInt64)
  else .error (.doesNotFit value.toNat 64 true)

end Stimulus
