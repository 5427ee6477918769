import Stimulus.Data.Writer
import Stimulus.InPlace

/-!
# Data calls in place

## Order of checks and changes

Each operation on a writer as a call that changes it in place.  Several operations
change the writer more than once, or check it again after they have changed it.
-/

namespace Stimulus
namespace Data
namespace WriterCall

open InPlace

def setCursor (cursor : UInt64) : InPlace Writer Unit :=
  modify fun w => { w with cursor }

def push (record : Record) : InPlace Writer Unit :=
  modify fun w =>
    { w with opened := w.opened.map fun s => { s with records := s.records ++ [record] } }

/-!
# Configuration and declarations
-/

def configure (config : Config) : InPlace Writer Unit := do
  let w ← get
  refuseIf (w.layout.config.isSome = true) (.structural .dataConfiguredTwice)
  refuseIf (config.unitBits = 0) (.argument (.notPositive .addressableUnit))
  modify fun w => { w with layout := { w.layout with config := some config } }

def declare (name : String) (declaration : Declaration) : InPlace Writer Unit := do
  let w ← get
  refuseIf (w.layout.declarations.contains (Key.ofName name) = true)
    (.structural (.aliasDeclaredTwice name))
  modify fun w =>
    let declarations := w.layout.declarations.insert (Key.ofName name) declaration
    { w with layout := { w.layout with declarations } }

def declareNumbers (name text : String) (numbers : NumberType) : InPlace Writer Unit := do
  let config ← ask Writer.config
  refuseIf (numbers.bits = 0) (.argument (.notPositive .typeWidth))
  refuseIf (numbers.bits % config.unitBits ≠ 0)
    (.argument (.widthNotWholeUnits numbers.bits config.unitBits))
  declare name (.type text numbers)

def declareSpace (name text : String) (fill : UInt64) : InPlace Writer Unit := do
  let _ ← ask Writer.config
  declare name (.space text fill)

def declareStrings (name text : String) (terminated : Bool) : InPlace Writer Unit := do
  let _ ← ask Writer.config
  declare name (.string text terminated)

/-!
# Sections
-/

def openSection : InPlace Writer Unit := do
  let _ ← ask Writer.config
  let w ← get
  refuseIf (w.isOpen = true) (.structural .sectionOpenedTwice)
  modify fun w => { w with opened := some ⟨w.cursor, []⟩ }

/-- Takes the section that is open, before it is known whether there is one. -/
def takeSection : InPlace Writer (Option OpenSection) := do
  let w ← get
  modify fun w => { w with opened := none }
  return w.opened

def closeSection : InPlace Writer Unit := do
  match ← takeSection with
  | none => check (.error (.structural .noSectionToClose))
  | some opened =>
      modify fun w =>
        let finished : Section := ⟨opened.start, w.cursor, opened.records⟩
        { w with layout := { w.layout with sections := w.layout.sections ++ [finished] } }

def label (name : String) : InPlace Writer UInt64 := do
  let w ← get
  let _ ← ask Writer.currentSection
  push (.label name w.cursor)
  return w.cursor

def moveTo (address : UInt64) : InPlace Writer Unit := do
  let w ← get
  let _ ← ask Writer.currentSection
  refuseIf (address < w.cursor) (.structural (.originBehindCursor w.cursor address))
  push (.origin address)
  setCursor address

def align (alignment : UInt64) : InPlace Writer Unit := do
  refuseIf (alignment = 0) (.argument .alignmentZero)
  let w ← get
  let _ ← ask Writer.currentSection
  let steps := (w.cursor.toNat + alignment.toNat - 1) / alignment.toNat
  let aligned ← check (w.inAddressSpace (steps * alignment.toNat) alignment.toNat)
  if w.cursor < aligned then
    push (.padding w.cursor (aligned - w.cursor))
  setCursor aligned

/-!
# Data
-/

def advance (units : Nat) : InPlace Writer UInt64 := do
  let w ← get
  let next ← check (w.inAddressSpace (w.cursor.toNat + units) units)
  setCursor next
  return w.cursor

/-- Moves the cursor first; then the section is looked up again and gets the record. -/
def place (units : Nat) (record : UInt64 → Record) : InPlace Writer UInt64 := do
  let address ← advance units
  let _ ← ask Writer.currentSection
  push (record address)
  return address

def placeNumbers (name : String) (values : List Value) : InPlace Writer UInt64 := do
  let _ ← ask Writer.currentSection
  match ← ask fun w => w.lookup name with
  | .type text numbers =>
      refuseIf (values.isEmpty = true) (.argument (.notPositive .valueList))
      check ((numbers.checkAll values).mapError .argument)
      let config ← ask Writer.config
      place (numbers.bits / config.unitBits * values.length) fun address =>
        .values text address numbers values
  | _ => check (.error (.structural (.aliasOfOtherKind name .type)))

def placeSpace (name : String) (units : UInt64) : InPlace Writer UInt64 := do
  let _ ← ask Writer.currentSection
  match ← ask fun w => w.lookup name with
  | .space text fill =>
      refuseIf (units = 0) (.argument (.notPositive .spaceLength))
      place units.toNat fun address => .space text address units fill
  | _ => check (.error (.structural (.aliasOfOtherKind name .space)))

def placeStrings (name : String) (strings : List String) : InPlace Writer UInt64 := do
  let _ ← ask Writer.currentSection
  match ← ask fun w => w.lookup name with
  | .string text terminated =>
      refuseIf (strings.isEmpty = true) (.argument (.notPositive .stringList))
      let config ← ask Writer.config
      place (Writer.stringsUnits config.unitBits terminated strings) fun address =>
        .strings text address strings terminated
  | _ => check (.error (.structural (.aliasOfOtherKind name .string)))

/-!
# Operations
-/

def perform : Operation → InPlace Writer (Option UInt64)
  | .configure config => do configure config; return none
  | .declareNumbers name text numbers => do declareNumbers name text numbers; return none
  | .declareSpace name text fill => do declareSpace name text fill; return none
  | .declareStrings name text terminated => do declareStrings name text terminated; return none
  | .openSection => do openSection; return none
  | .closeSection => do closeSection; return none
  | .label name => return some (← label name)
  | .moveTo address => do moveTo address; return none
  | .align alignment => do align alignment; return none
  | .placeNumbers name values => return some (← placeNumbers name values)
  | .placeSpace name units => return some (← placeSpace name units)
  | .placeStrings name strings => return some (← placeStrings name strings)

end WriterCall
end Data
end Stimulus
