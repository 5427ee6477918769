import Stimulus.Pattern.Basic

/-!
# Register preparators

## Loading a value

A register preparator holds the calls that load a 64-bit value into a mode.
Its holes stand for the target and for slices of the value.

## Lookup

The preparators of one target form a group: a named variant is looked up first,
and the unnamed preparator is the default of the group.
-/

namespace Stimulus

/-- The whole value, or its bits from `low` to `high`, both included. -/
inductive BitSlice where
  | whole
  | bits (low high : Nat) (low_le_high : low ≤ high) (high_lt : high < 64)
deriving DecidableEq

namespace BitSlice

def ofBits (low high : Nat) : Except ArgumentFault BitSlice :=
  if h : low ≤ high ∧ high < 64 then .ok (.bits low high h.1 h.2)
  else .error (.sliceOutsideValue low high)

def extract (value : UInt64) : BitSlice → UInt64
  | whole => value
  | bits low high _ _ =>
      let width := high - low + 1
      let shifted := value >>> UInt64.ofNat low
      if width = 64 then shifted
      else shifted &&& ((1 <<< UInt64.ofNat width) - 1)

def text : BitSlice → String
  | whole => "value"
  | bits low high _ _ => "value(" ++ toString low ++ ", " ++ toString high ++ ")"

end BitSlice

inductive RegisterHole where
  | target
  | value (slice : BitSlice)
deriving DecidableEq

def RegisterHole.need : RegisterHole → RegisterNeed
  | target => .target
  | value _ => .value

structure RegisterPreparator where
  target : String
  variant : Option String
  calls : List (CallPattern RegisterHole)
deriving DecidableEq

namespace RegisterPreparator

def key (p : RegisterPreparator) : RegisterKey :=
  ⟨p.target, p.variant⟩

def isDefault (p : RegisterPreparator) : Bool :=
  p.variant.isNone

def uses (p : RegisterPreparator) (need : RegisterNeed) : Bool :=
  p.calls.any fun c => c.operands.any fun operand =>
    match operand with
    | .hole hole => hole.need == need
    | .literal _ => false

/-- A preparator has to use both the target and the value. -/
def ofCalls (target : String) (variant : Option String)
    (calls : List (CallPattern RegisterHole)) : Except StructureFault RegisterPreparator :=
  let p : RegisterPreparator := ⟨target, variant, calls⟩
  if !p.uses .target then .error (.registerNeedUnused p.key .target)
  else if !p.uses .value then .error (.registerNeedUnused p.key .value)
  else .ok p

def fill (target : Primitive) (value : UInt64) : RegisterHole → Except ArgumentFault Argument
  | .target => .ok target.toArgument
  | .value slice => Argument.ofWord (slice.extract value)

def instantiate (p : RegisterPreparator) (target : Primitive) (value : UInt64) :
    Except ArgumentFault (List Primitive) :=
  if target.kind = .mode ∧ Key.ofName target.name = Key.ofName p.target then
    CallPattern.instantiateAll (fill target value) p.calls
  else .error (.notAMode .preparatorTarget target)

def canonical (model : Model) (p : RegisterPreparator) :
    Except Refusal RegisterPreparator :=
  match model.find? .mode p.target with
  | none => .error (.structural (.notInModel p.target))
  | some entry => do
      let calls ← CallPattern.canonicalAll model p.calls
      return { p with target := entry.name, calls }

end RegisterPreparator

structure RegisterGroup where
  default? : Option RegisterPreparator := none
  variants : OrderedMap Key RegisterPreparator := {}

namespace RegisterGroup

def registered? (g : RegisterGroup) : Option Key → Option RegisterPreparator
  | none => g.default?
  | some variant => g.variants.get? variant

def insert (g : RegisterGroup) (p : RegisterPreparator) : RegisterGroup :=
  match p.variant with
  | none => { g with default? := some p }
  | some variant => { g with variants := g.variants.insert (Key.ofName variant) p }

/-- The default first, then the variants in the order of their registration. -/
def toList (g : RegisterGroup) : List RegisterPreparator :=
  g.default?.toList ++ g.variants.values

end RegisterGroup

abbrev RegisterStore :=
  OrderedMap Key RegisterGroup

namespace RegisterStore

def group (s : RegisterStore) (target : String) : RegisterGroup :=
  (s.get? (Key.ofName target)).getD {}

def replacedBy? (s : RegisterStore) (p : RegisterPreparator) : Option RegisterPreparator :=
  (s.group p.target).registered? (p.variant.map Key.ofName)

def register (s : RegisterStore) (p : RegisterPreparator) : RegisterStore :=
  s.insert (Key.ofName p.target) ((s.group p.target).insert p)

def find (s : RegisterStore) (target : String) (variant : Option String) :
    Except StructureFault RegisterPreparator :=
  let g := s.group target
  match (variant.bind fun name => g.variants.get? (Key.ofName name)).or g.default? with
  | some p => .ok p
  | none => .error (.noRegisterPreparator ⟨target, none⟩)

def toList (s : RegisterStore) : List RegisterPreparator :=
  s.values.flatMap RegisterGroup.toList

end RegisterStore
end Stimulus
