import Stimulus.Request.Allocation

/-!
# Drafts of allocations

## Clause after clause

A draft takes the clauses of a constraint one after the other and item by item.  It
leaves unsuitable items out and goes on, but remembers the first of them, and reports it
when the draft is finished.
-/

namespace Stimulus

/-- What has been collected, and the first fault. -/
structure AllocationDraft where
  allocation : Allocation
  fault? : Option ArgumentFault := none

namespace AllocationDraft

def start (resourceClass : String) : AllocationDraft :=
  ⟨⟨resourceClass, [], [], 0, {}, {}⟩, none⟩

def record (d : AllocationDraft) (fault : ArgumentFault) : AllocationDraft :=
  { d with fault? := d.fault?.or (some fault) }

def takeModes (use : ModeUse) (put : Allocation → Primitive → Allocation)
    (d : AllocationDraft) : List Primitive → AllocationDraft
  | [] => d
  | p :: rest =>
      if p.kind = .mode then
        takeModes use put { d with allocation := put d.allocation p } rest
      else takeModes use put (d.record (.notAMode use p)) rest

def takeWeights (d : AllocationDraft) (parsed : List (LastUse × Nat)) :
    List (String × Nat) → AllocationDraft × List (LastUse × Nat)
  | [] => (d, parsed)
  | (name, weight) :: rest =>
      match LastUse.ofName name with
      | .ok use => takeWeights d (parsed ++ [(use, weight)]) rest
      | .error fault => takeWeights (d.record fault) parsed rest

def add (d : AllocationDraft) : AllocationClause → AllocationDraft
  | .retain resources =>
      d.takeModes .retain (fun a p => { a with retain := a.retain ++ [p] }) resources
  | .exclude resources =>
      d.takeModes .exclude (fun a p => { a with exclude := a.exclude ++ [p] }) resources
  | .track window => { d with allocation := { d.allocation with track := window } }
  | .weights access weights => { d with allocation := d.allocation.addWeights access weights }
  | .namedWeights word named =>
      match AccessKind.ofName word with
      | .error fault => d.record fault
      | .ok access =>
          let (taken, weights) := d.takeWeights [] named
          { taken with allocation := taken.allocation.addWeights access weights }

/-- The collected constraint, unless there was a fault or a resource is both retained and
excluded. -/
def finish (d : AllocationDraft) : Except Refusal Allocation :=
  match d.fault? with
  | some fault => .error (.argument fault)
  | none =>
      match d.allocation.overlap? with
      | some resource =>
          .error (.structural (.retainedAndExcluded d.allocation.resourceClass resource))
      | none => .ok d.allocation

def addAll (d : AllocationDraft) (clauses : List AllocationClause) : AllocationDraft :=
  clauses.foldl add d

end AllocationDraft
end Stimulus
