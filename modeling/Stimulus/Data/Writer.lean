import Stimulus.Data.Layout

/-!
# Writing data sections

## The cursor

A writer appends records at a cursor that counts addressable units.  The cursor
moves forward only, carries over from one section to the next, and never passes
the end of the 64-bit address space.

## Refused calls

Every operation either answers the writer that results or a cause, in which
case nothing has changed.
-/

namespace Stimulus
namespace Data

structure OpenSection where
  start : UInt64
  records : List Record
deriving DecidableEq

/-- The data declared so far, the section being written, and the next free address. -/
structure Writer where
  layout : Layout := {}
  opened : Option OpenSection := none
  cursor : UInt64 := 0

namespace Writer

def isOpen (w : Writer) : Bool :=
  w.opened.isSome

def config (w : Writer) : Except Refusal Config :=
  match w.layout.config with
  | some config => .ok config
  | none => .error (.structural .dataNotConfigured)

def currentSection (w : Writer) : Except Refusal OpenSection :=
  match w.opened with
  | some opened => .ok opened
  | none => .error (.structural .dataNeedsSection)

/-!
# Configuration and declarations
-/

def configure (w : Writer) (config : Config) : Except Refusal Writer :=
  if w.layout.config.isSome then .error (.structural .dataConfiguredTwice)
  else if config.unitBits = 0 then .error (.argument (.notPositive .addressableUnit))
  else .ok { w with layout := { w.layout with config := some config } }

def declare (w : Writer) (name : String) (declaration : Declaration) :
    Except Refusal Writer :=
  if w.layout.declarations.contains (Key.ofName name) then
    .error (.structural (.aliasDeclaredTwice name))
  else
    let declarations := w.layout.declarations.insert (Key.ofName name) declaration
    .ok { w with layout := { w.layout with declarations } }

def declareNumbers (w : Writer) (name text : String) (numbers : NumberType) :
    Except Refusal Writer := do
  let config ← w.config
  if numbers.bits = 0 then
    throw (.argument (.notPositive .typeWidth))
  if numbers.bits % config.unitBits ≠ 0 then
    throw (.argument (.widthNotWholeUnits numbers.bits config.unitBits))
  w.declare name (.type text numbers)

def declareSpace (w : Writer) (name text : String) (fill : UInt64) :
    Except Refusal Writer := do
  let _ ← w.config
  w.declare name (.space text fill)

def declareStrings (w : Writer) (name text : String) (terminated : Bool) :
    Except Refusal Writer := do
  let _ ← w.config
  w.declare name (.string text terminated)

def lookup (w : Writer) (name : String) : Except Refusal Declaration :=
  match w.layout.declaration? name with
  | some declaration => .ok declaration
  | none => .error (.structural (.aliasNeverDeclared name))

/-!
# Sections
-/

def openSection (w : Writer) : Except Refusal Writer := do
  let _ ← w.config
  if w.isOpen then
    throw (.structural .sectionOpenedTwice)
  return { w with opened := some ⟨w.cursor, []⟩ }

def closeSection (w : Writer) : Except Refusal Writer :=
  match w.opened with
  | none => .error (.structural .noSectionToClose)
  | some opened =>
      let finished : Section := ⟨opened.start, w.cursor, opened.records⟩
      .ok { w with
        layout := { w.layout with sections := w.layout.sections ++ [finished] }
        opened := none }

def append (w : Writer) (opened : OpenSection) (record : Record) (cursor : UInt64) : Writer :=
  { w with opened := some { opened with records := opened.records ++ [record] }, cursor }

def addressHere (w : Writer) : Except Refusal UInt64 := do
  let _ ← w.currentSection
  return w.cursor

def label (w : Writer) (name : String) : Except Refusal (UInt64 × Writer) := do
  let opened ← w.currentSection
  return (w.cursor, w.append opened (.label name w.cursor) w.cursor)

def moveTo (w : Writer) (address : UInt64) : Except Refusal Writer := do
  let opened ← w.currentSection
  if address < w.cursor then
    throw (.structural (.originBehindCursor w.cursor address))
  return w.append opened (.origin address) address

/-- The address `target`, if it lies in the address space.  The failure names
the sum of the cursor and the distance that was asked for. -/
def inAddressSpace (w : Writer) (target asked : Nat) : Except Refusal UInt64 :=
  if h : target < UInt64.size then .ok (UInt64.ofNatLT target h)
  else .error (.argument (.doesNotFit (w.cursor.toNat + asked : Nat) 64 false))

def align (w : Writer) (alignment : UInt64) : Except Refusal Writer := do
  if alignment = 0 then
    throw (.argument .alignmentZero)
  let opened ← w.currentSection
  let steps := (w.cursor.toNat + alignment.toNat - 1) / alignment.toNat
  let aligned ← w.inAddressSpace (steps * alignment.toNat) alignment.toNat
  if w.cursor < aligned then
    return w.append opened (.padding w.cursor (aligned - w.cursor)) aligned
  else
    return { w with cursor := aligned }

/-!
# Data
-/

def place (w : Writer) (units : Nat) (record : UInt64 → Record) :
    Except Refusal (UInt64 × Writer) := do
  let opened ← w.currentSection
  let next ← w.inAddressSpace (w.cursor.toNat + units) units
  return (w.cursor, w.append opened (record w.cursor) next)

def placeNumbers (w : Writer) (name : String) (values : List Value) :
    Except Refusal (UInt64 × Writer) := do
  let _ ← w.currentSection
  match ← w.lookup name with
  | .type text numbers =>
      if values.isEmpty then
        throw (.argument (.notPositive .valueList))
      (numbers.checkAll values).mapError .argument
      let config ← w.config
      w.place (numbers.bits / config.unitBits * values.length) fun address =>
        .values text address numbers values
  | _ => throw (.structural (.aliasOfOtherKind name .type))

def placeSpace (w : Writer) (name : String) (units : UInt64) :
    Except Refusal (UInt64 × Writer) := do
  let _ ← w.currentSection
  match ← w.lookup name with
  | .space text fill =>
      if units = 0 then
        throw (.argument (.notPositive .spaceLength))
      w.place units.toNat fun address => .space text address units fill
  | _ => throw (.structural (.aliasOfOtherKind name .space))

/-- The units that a string takes: its bytes in UTF-8 and the terminator, rounded
up to whole units. -/
def stringUnits (unitBits : Nat) (terminated : Bool) (s : String) : Nat :=
  let bytes := s.utf8ByteSize + (if terminated then 1 else 0)
  (8 * bytes + unitBits - 1) / unitBits

def stringsUnits (unitBits : Nat) (terminated : Bool) (strings : List String) : Nat :=
  strings.foldr (fun s units => stringUnits unitBits terminated s + units) 0

def placeStrings (w : Writer) (name : String) (strings : List String) :
    Except Refusal (UInt64 × Writer) := do
  let _ ← w.currentSection
  match ← w.lookup name with
  | .string text terminated =>
      if strings.isEmpty then
        throw (.argument (.notPositive .stringList))
      let config ← w.config
      let units := stringsUnits config.unitBits terminated strings
      w.place units fun address => .strings text address strings terminated
  | _ => throw (.structural (.aliasOfOtherKind name .string))

def freeze (w : Writer) : Except Refusal Layout :=
  if w.isOpen then .error (.structural .sectionLeftOpen)
  else .ok w.layout

end Writer

/-!
# Operations
-/

inductive Operation where
  | configure (config : Config)
  | declareNumbers (name text : String) (numbers : NumberType)
  | declareSpace (name text : String) (fill : UInt64)
  | declareStrings (name text : String) (terminated : Bool)
  | openSection
  | closeSection
  | label (name : String)
  | moveTo (address : UInt64)
  | align (alignment : UInt64)
  | placeNumbers (name : String) (values : List Value)
  | placeSpace (name : String) (units : UInt64)
  | placeStrings (name : String) (strings : List String)

namespace Writer

def perform (w : Writer) : Operation → Except Refusal (Option UInt64 × Writer)
  | .configure config => (w.configure config).map fun w => (none, w)
  | .declareNumbers name text numbers =>
      (w.declareNumbers name text numbers).map fun w => (none, w)
  | .declareSpace name text fill => (w.declareSpace name text fill).map fun w => (none, w)
  | .declareStrings name text terminated =>
      (w.declareStrings name text terminated).map fun w => (none, w)
  | .openSection => w.openSection.map fun w => (none, w)
  | .closeSection => w.closeSection.map fun w => (none, w)
  | .label name => (w.label name).map fun (address, w) => (some address, w)
  | .moveTo address => (w.moveTo address).map fun w => (none, w)
  | .align alignment => (w.align alignment).map fun w => (none, w)
  | .placeNumbers name values =>
      (w.placeNumbers name values).map fun (address, w) => (some address, w)
  | .placeSpace name units =>
      (w.placeSpace name units).map fun (address, w) => (some address, w)
  | .placeStrings name strings =>
      (w.placeStrings name strings).map fun (address, w) => (some address, w)

def step (w : Writer) (operation : Operation) : Writer :=
  match w.perform operation with
  | .ok (_, next) => next
  | .error _ => w

def run (w : Writer) (operations : List Operation) : Writer :=
  operations.foldl step w

end Writer
end Data
end Stimulus
