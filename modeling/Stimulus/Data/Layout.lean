import Stimulus.Refusal
import Stimulus.Table.OrderedMap

/-!
# Data layouts

## Declarations and records

The configuration fixes the section directive, the target memory and the number
of bits in one addressable unit.  Declarations name the kinds of data, and a
section lists what was placed in it, with addresses counted in units.
-/

namespace Stimulus
namespace Data

def wordCount (bits : Nat) : Nat :=
  Nat.pow 2 bits

/-- A number of a data section: a signed integer of 128 bits. -/
structure Value where
  val : Int
  lower : -(wordCount 127 : Int) ≤ val
  upper : val < wordCount 127
deriving DecidableEq

def Value.ofInt? (n : Int) : Option Value :=
  if h : -(wordCount 127 : Int) ≤ n ∧ n < wordCount 127 then some ⟨n, h.1, h.2⟩
  else none

structure Config where
  text : String
  target : String
  unitBits : Nat
deriving DecidableEq

structure NumberType where
  bits : Nat
  signed : Bool
deriving DecidableEq

namespace NumberType

def card (bits : Nat) : NumberType :=
  ⟨bits, false⟩

def int (bits : Nat) : NumberType :=
  ⟨bits, true⟩

def ofName (name : String) (bits : Nat) : Except ArgumentFault NumberType :=
  if Key.ofName name = ⟨"card"⟩ then .ok (card bits)
  else if Key.ofName name = ⟨"int"⟩ then .ok (int bits)
  else .error (.unknownWord .numberType name)

/-- The least and the greatest value accepted.  From 127 bits on every value is,
negative ones of unsigned types included. -/
def limits (t : NumberType) : Int × Int :=
  let range (negatives nonnegatives : Nat) : Int × Int :=
    (-(negatives : Int), (nonnegatives : Int) - 1)
  if t.bits = 0 then range 0 1
  else if 127 ≤ t.bits then range (wordCount 127) (wordCount 127)
  else if t.signed then range (wordCount (t.bits - 1)) (wordCount (t.bits - 1))
  else range 0 (wordCount t.bits)

def check (t : NumberType) (value : Value) : Except ArgumentFault Unit :=
  if value.val < t.limits.1 ∨ t.limits.2 < value.val then
    .error (.doesNotFit value.val t.bits t.signed)
  else .ok ()

def checkAll (t : NumberType) : List Value → Except ArgumentFault Unit
  | [] => .ok ()
  | value :: rest => do
      t.check value
      t.checkAll rest

def text (t : NumberType) : String :=
  (if t.signed then "int" else "card") ++ "(" ++ toString t.bits ++ ")"

end NumberType

inductive Declaration where
  | type (text : String) (numbers : NumberType)
  | space (text : String) (fill : UInt64)
  | string (text : String) (terminated : Bool)
deriving DecidableEq

inductive Record where
  | label (name : String) (address : UInt64)
  | origin (address : UInt64)
  | padding (address : UInt64) (units : UInt64)
  | values (text : String) (address : UInt64) (numbers : NumberType) (values : List Value)
  | space (text : String) (address : UInt64) (units : UInt64) (fill : UInt64)
  | strings (text : String) (address : UInt64) (strings : List String)
      (terminated : Bool)
deriving DecidableEq

def Record.address : Record → UInt64
  | label _ address => address
  | origin address => address
  | padding address _ => address
  | values _ address _ _ => address
  | space _ address _ _ => address
  | strings _ address _ _ => address

structure Section where
  start : UInt64
  stop : UInt64
  records : List Record
deriving DecidableEq

structure Layout where
  config : Option Config := none
  declarations : OrderedMap Key Declaration := {}
  sections : List Section := []

namespace Layout

def declaration? (l : Layout) (name : String) : Option Declaration :=
  l.declarations.get? (Key.ofName name)

def isEmpty (l : Layout) : Bool :=
  l.sections.isEmpty

end Layout

end Data
end Stimulus
