import Stimulus.Build.Scope
import Stimulus.Tree.Labels

/-!
# Expansion of stream accesses

## From built trees to sealed trees

When a template is sealed, every stream access is replaced, where it stands, by
a block of the calls that it expands to.  The type of a sealed tree leaves no
room for accesses.
-/

namespace Stimulus

/-- The block that stands for an access: the identity that was reserved for it,
and nothing but calls. -/
def StreamAccess.expansion (a : StreamAccess) (calls : List Primitive) : Node Empty :=
  .block { id := a.block, kind := .expansion } (calls.map fun p => .call ⟨p, none⟩)

/-- Looks the stream up and expands it; it starts at the data label that has its name. -/
def StreamAccess.expand (streams : Streams) (labels : Labels) (a : StreamAccess) :
    Except Refusal (Node Empty) := do
  let stream ← (streams.get a.stream).mapError .structural
  let start ← (labels.dataAddress stream.label).mapError .structural
  let calls ← (stream.expand a.part start).mapError .argument
  return a.expansion calls

mutual

def Node.expand (streams : Streams) (labels : Labels) :
    Node StreamAccess → Except Refusal (Node Empty)
  | .call c => .ok (.call c)
  | .block head children => do
      let children ← Node.expandAll streams labels children
      return .block head children
  | .label name => .ok (.label name)
  | .output o => .ok (.output o)
  | .directive d => .ok (.directive d)
  | .access a => a.expand streams labels

def Node.expandAll (streams : Streams) (labels : Labels) :
    List (Node StreamAccess) → Except Refusal (List (Node Empty))
  | [] => .ok []
  | n :: rest => do
      let first ← n.expand streams labels
      let others ← Node.expandAll streams labels rest
      return first :: others

end

def Block.expand (streams : Streams) (labels : Labels) (b : Block StreamAccess) :
    Except Refusal (Block Empty) := do
  let children ← Node.expandAll streams labels b.children
  return ⟨b.head, children⟩

end Stimulus
