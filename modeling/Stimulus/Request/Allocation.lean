import Stimulus.Primitive.Basic
import Stimulus.Refusal

/-!
# Allocation constraints

## Policies for choosing resources

A constraint says which modes of a resource class the engine may choose for the
unknown registers of a sequence: some are retained, some excluded, the last few
are tracked, and weights steer the choice by what was last done to a register.
Nothing is allocated here.
-/

namespace Stimulus

inductive AccessKind where
  | read
  | write
deriving DecidableEq

def AccessKind.ofName (name : String) : Except ArgumentFault AccessKind :=
  if Key.ofName name = ⟨"read"⟩ then .ok .read
  else if Key.ofName name = ⟨"write"⟩ then .ok .write
  else .error (.unknownWord .accessKind name)

inductive LastUse where
  | read
  | write
  | free
deriving DecidableEq

namespace LastUse

def all : List LastUse :=
  [read, write, free]

def name : LastUse → String
  | read => "read"
  | write => "write"
  | free => "free"

def ofName (name : String) : Except ArgumentFault LastUse :=
  match all.find? fun use => Key.ofName name = ⟨use.name⟩ with
  | some use => .ok use
  | none => .error (.unknownWord .lastUse name)

end LastUse

/-- The relative weight of each last use, where one is given.  Zero is a weight. -/
structure UseWeights where
  read : Option Nat := none
  write : Option Nat := none
  free : Option Nat := none
deriving DecidableEq

namespace UseWeights

def get (w : UseWeights) : LastUse → Option Nat
  | .read => w.read
  | .write => w.write
  | .free => w.free

def set (w : UseWeights) (use : LastUse) (weight : Nat) : UseWeights :=
  match use with
  | .read => { w with read := some weight }
  | .write => { w with write := some weight }
  | .free => { w with free := some weight }

def setAll (w : UseWeights) (weights : List (LastUse × Nat)) : UseWeights :=
  weights.foldl (fun acc entry => acc.set entry.1 entry.2) w

def entries (w : UseWeights) : List (LastUse × Nat) :=
  LastUse.all.filterMap fun use => (w.get use).map fun weight => (use, weight)

def total (w : UseWeights) : Nat :=
  w.entries.foldr (fun entry total => entry.2 + total) 0

def isEmpty (w : UseWeights) : Bool :=
  w.entries.isEmpty

end UseWeights

structure Allocation where
  resourceClass : String
  retain : List Primitive := []
  exclude : List Primitive := []
  track : Nat := 0
  read : UseWeights := {}
  write : UseWeights := {}
deriving DecidableEq

inductive AllocationClause where
  | retain (resources : List Primitive)
  | exclude (resources : List Primitive)
  | track (window : Nat)
  | weights (access : AccessKind) (weights : List (LastUse × Nat))
  | namedWeights (access : String) (weights : List (String × Nat))
deriving DecidableEq

namespace Allocation

def weights (a : Allocation) : AccessKind → UseWeights
  | .read => a.read
  | .write => a.write

def addWeights (a : Allocation) (access : AccessKind)
    (weights : List (LastUse × Nat)) : Allocation :=
  match access with
  | .read => { a with read := a.read.setAll weights }
  | .write => { a with write := a.write.setAll weights }

def covers (a : Allocation) (name : String) : Bool :=
  Key.ofName a.resourceClass == Key.ofName name

def checkModes (use : ModeUse) : List Primitive → Except ArgumentFault Unit
  | [] => .ok ()
  | p :: rest =>
      if p.kind = .mode then checkModes use rest
      else .error (.notAMode use p)

def parseWeights : List (String × Nat) → Except ArgumentFault (List (LastUse × Nat))
  | [] => .ok []
  | (name, weight) :: rest => do
      let use ← LastUse.ofName name
      let others ← parseWeights rest
      return (use, weight) :: others

def apply (a : Allocation) : AllocationClause → Except ArgumentFault Allocation
  | .retain resources => do
      checkModes .retain resources
      return { a with retain := a.retain ++ resources }
  | .exclude resources => do
      checkModes .exclude resources
      return { a with exclude := a.exclude ++ resources }
  | .track window => .ok { a with track := window }
  | .weights access weights => .ok (a.addWeights access weights)
  | .namedWeights word named => do
      let access ← AccessKind.ofName word
      let weights ← parseWeights named
      return a.addWeights access weights

def applyAll (a : Allocation) : List AllocationClause → Except ArgumentFault Allocation
  | [] => .ok a
  | clause :: rest => do
      let a ← a.apply clause
      a.applyAll rest

def overlap? (a : Allocation) : Option Primitive :=
  a.retain.find? fun p => a.exclude.any fun q => q.sameUpToSpelling p

/-- The constraint that `clauses` describe.  An unsuitable clause is reported
before resources that are both retained and excluded. -/
def ofClauses (resourceClass : String) (clauses : List AllocationClause) :
    Except Refusal Allocation :=
  match applyAll ⟨resourceClass, [], [], 0, {}, {}⟩ clauses with
  | .error cause => .error (.argument cause)
  | .ok a =>
      match a.overlap? with
      | some resource =>
          .error (.structural (.retainedAndExcluded resourceClass resource))
      | none => .ok a

def text (a : Allocation) : String :=
  let retained := if a.retain.isEmpty then "" else ", retain: " ++ toString a.retain.length
  let excluded := if a.exclude.isEmpty then "" else ", exclude: " ++ toString a.exclude.length
  "allocation(" ++ a.resourceClass ++ ", track: " ++ toString a.track ++ retained ++
    excluded ++ ")"

end Allocation
end Stimulus
