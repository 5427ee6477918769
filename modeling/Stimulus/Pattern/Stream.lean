import Stimulus.Pattern.Basic

/-!
# Stream preparators

## Accessing an array

A stream preparator holds the calls that set up, read and write an array
through a data register and an index register.

## Registration

Preparators are registered under the keys of the two modes; a later one under
the same key takes the place of the earlier one.
-/

namespace Stimulus

inductive StreamPart where
  | init
  | read
  | write
deriving DecidableEq

structure StreamPreparator where
  key : StreamKey
  init : List (CallPattern StreamHole)
  read : List (CallPattern StreamHole)
  write : List (CallPattern StreamHole)
deriving DecidableEq

namespace StreamPreparator

def part (p : StreamPreparator) : StreamPart → List (CallPattern StreamHole)
  | .init => p.init
  | .read => p.read
  | .write => p.write

def patterns (p : StreamPreparator) : List (CallPattern StreamHole) :=
  p.init ++ p.read ++ p.write

def initUses (p : StreamPreparator) (hole : StreamHole) : Bool :=
  p.init.any fun c => c.operands.any fun operand =>
    match operand with
    | .hole h => h == hole
    | .literal _ => false

/-- Sorts the calls into their parts, keeping the order in each.  The start
label has to reach the index register, so the set-up must use both. -/
def ofCalls (data index : String) (calls : List (StreamPart × CallPattern StreamHole)) :
    Except StructureFault StreamPreparator :=
  let select (part : StreamPart) :=
    (calls.filter fun call => call.1 == part).map Prod.snd
  let p : StreamPreparator :=
    ⟨StreamKey.ofNames data index, select .init, select .read, select .write⟩
  if !p.initUses .index then .error (.streamHoleUnused p.key .index)
  else if !p.initUses .startLabel then .error (.streamHoleUnused p.key .startLabel)
  else .ok p

def canonical (model : Model) (p : StreamPreparator) : Except Refusal StreamPreparator := do
  if (model.atKey? .mode p.key.data).isNone then
    throw (.structural (.notInModel p.key.data.text))
  if (model.atKey? .mode p.key.index).isNone then
    throw (.structural (.notInModel p.key.index.text))
  let init ← CallPattern.canonicalAll model p.init
  let read ← CallPattern.canonicalAll model p.read
  let write ← CallPattern.canonicalAll model p.write
  return { p with init, read, write }

end StreamPreparator

abbrev StreamRegistry :=
  OrderedMap StreamKey StreamPreparator

namespace StreamRegistry

def register (r : StreamRegistry) (p : StreamPreparator) : StreamRegistry :=
  r.insert p.key p

def find (r : StreamRegistry) (key : StreamKey) : Except StructureFault StreamPreparator :=
  match r.get? key with
  | some p => .ok p
  | none => .error (.noStreamPreparator key)

end StreamRegistry
end Stimulus
