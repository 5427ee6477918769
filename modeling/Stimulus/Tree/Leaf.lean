import Stimulus.Refusal
import Stimulus.Request.Situation

/-!
# Leaves of the block tree

## Calls, outputs and directives

An instruction call may carry one situation.  An output is text for the program
or for the simulator log, and a directive places the code that follows.
-/

namespace Stimulus

structure Call where
  primitive : Primitive
  situation : Option Situation := none

namespace Call

def mnemonic (c : Call) : String :=
  c.primitive.name

def attach (c : Call) (s : Situation) : Except StructureFault Call :=
  if c.situation.isSome then .error (.situationAlreadyAttached (.call c.primitive))
  else .ok { c with situation := some s }

def text (c : Call) : String :=
  match c.situation with
  | none => c.primitive.text
  | some s => c.primitive.text ++ " \x7b " ++ s.text ++ " \x7d"

end Call

inductive OutputKind where
  | text
  | trace
deriving DecidableEq

inductive FormatArgument where
  | int (value : Int64)
  | flag (value : Bool)
  | text (value : String)
  | location (name : String) (index : Int64)
deriving DecidableEq

structure Output where
  kind : OutputKind
  format : String
  args : List FormatArgument
deriving DecidableEq

def Output.text (format : String) : Output :=
  ⟨.text, format, []⟩

inductive Directive where
  | origin (address : UInt64) (relative : Bool)
  | align (alignment : UInt64)
deriving DecidableEq

end Stimulus
