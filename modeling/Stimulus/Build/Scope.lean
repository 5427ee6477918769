import Stimulus.Pattern.BoundStream
import Stimulus.Tree.Basic

/-!
# Open scopes

## Blocks under construction

A scope is a block whose children are still being appended.  A stream access names
its stream, and has the identity that is reserved for its block.
-/

namespace Stimulus

/-- An access to a part of a stream; `block` is the identity of the block that will
stand for it. -/
structure StreamAccess where
  stream : StreamId
  part : StreamPart
  block : BlockId

structure Scope where
  head : BlockHead
  children : List (Node StreamAccess) := []
  /-- How many identities were given out to nested blocks and stream accesses. -/
  issued : Nat := 0
  constraining : Bool := false

namespace Scope

def phaseRoot (phase : Phase) : Scope where
  head := { id := BlockId.root.child phase.index, kind := .phaseRoot }

def block (s : Scope) : Block StreamAccess :=
  ⟨s.head, s.children⟩

def nextId (s : Scope) : BlockId :=
  s.head.id.child s.issued

def push (s : Scope) (node : Node StreamAccess) : Scope :=
  { s with children := s.children ++ [node] }

def reserve (s : Scope) : Scope :=
  { s with issued := s.issued + 1 }

def nested (s : Scope) (kind : ScopeKind) (requested : BlockAttributes) : Scope where
  head :=
    { id := s.nextId
      kind := .user kind
      attributes := requested.inherit s.head.attributes }

def attachLast (s : Scope) (situation : Situation) :
    Except StructureFault (Option (Call × Scope)) :=
  match s.children.getLast? with
  | some (.call c) => do
      let c ← c.attach situation
      return some (c, { s with children := s.children.dropLast ++ [.call c] })
  | _ => return none

/-- Adds a constraint to a sequence: its class has to be a mode of the model, and
a sequence constrains a class at most once. -/
def constrain (s : Scope) (model : Model) (a : Allocation) : Except StructureFault Scope :=
  if (model.find? .mode a.resourceClass).isNone then
    .error (.notInModel a.resourceClass)
  else if s.head.allocations.any fun other => other.covers a.resourceClass then
    .error (.classConstrainedTwice a.resourceClass)
  else
    .ok { s with head := { s.head with allocations := s.head.allocations ++ [a] } }

end Scope
end Stimulus
