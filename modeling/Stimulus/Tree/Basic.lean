import Stimulus.Request.Allocation
import Stimulus.Tree.Attributes
import Stimulus.Tree.Leaf

/-!
# The block tree

## Nodes

A block has a head and an ordered list of children.  The parameter `α` is the
type of the children that stand for stream accesses: while a template is built
these are the accesses themselves, and in a sealed template there are none.

## Situations

The situation of a block covers every call in it, so nothing below such a block
may carry a situation of its own.
-/

namespace Stimulus

structure BlockHead where
  id : BlockId
  kind : BlockKind
  attributes : BlockAttributes := {}
  situation : Option Situation := none
  allocations : List Allocation := []

inductive Node (α : Type) where
  | call (call : Call)
  | block (head : BlockHead) (children : List (Node α))
  | label (name : String)
  | output (output : Output)
  | directive (directive : Directive)
  | access (access : α)

structure Block (α : Type) where
  head : BlockHead
  children : List (Node α)

variable {α : Type}

/-!
# Direct children
-/

namespace Node

def call? : Node α → Option Call
  | call c => some c
  | _ => none

def block? : Node α → Option (Block α)
  | block head children => some ⟨head, children⟩
  | _ => none

end Node

namespace Block

def toNode (b : Block α) : Node α :=
  .block b.head b.children

def calls (b : Block α) : List Call :=
  b.children.filterMap Node.call?

def blocks (b : Block α) : List (Block α) :=
  b.children.filterMap Node.block?

def attribute? (b : Block α) (key : String) : Option AttributeValue :=
  b.head.attributes.attributes.get? key

end Block

/-!
# All blocks
-/

mutual

def Node.allBlocks : Node α → List (Block α)
  | .block head children => ⟨head, children⟩ :: Node.allBlocksOf children
  | _ => []

def Node.allBlocksOf : List (Node α) → List (Block α)
  | [] => []
  | n :: rest => n.allBlocks ++ Node.allBlocksOf rest

end

def Block.allBlocks (b : Block α) : List (Block α) :=
  b.toNode.allBlocks

/-!
# Situations of blocks
-/

mutual

def Node.checkUncovered : Node α → Except StructureFault Unit
  | .call c =>
      if c.situation.isSome then .error (.situationAlreadyAttached (.call c.primitive))
      else .ok ()
  | .block head children =>
      if head.situation.isSome then .error (.situationAlreadyAttached (.callsOf head.id))
      else Node.checkAllUncovered children
  | _ => .ok ()

def Node.checkAllUncovered : List (Node α) → Except StructureFault Unit
  | [] => .ok ()
  | n :: rest => do
      n.checkUncovered
      Node.checkAllUncovered rest

end

/-- A block with a situation of its own leaves no situation to its descendants. -/
def Block.checkCover (b : Block α) : Except StructureFault Unit :=
  if b.head.situation.isSome then Node.checkAllUncovered b.children
  else .ok ()

end Stimulus
