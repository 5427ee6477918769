import Stimulus.Primitive.Slots
import Stimulus.Tree.Basic

/-!
# Call sites

## Governed calls

The calls of a tree in depth-first order, each with the situation that governs it: its
own, or else that of the nearest block around it that has one.

## Calls with the blocks around them

A call site has the heads of all blocks that enclose the call, the innermost first.
What governs the call is read off this path.
-/

namespace Stimulus

variable {α : Type}

/-!
# Governed calls
-/

structure GovernedCall (α : Type) where
  call : Call
  situation : Option Situation
  block : Block α

mutual

def Node.governedCalls (inherited : Option Situation) (parent : Block α) :
    Node α → List (GovernedCall α)
  | .call c => [⟨c, c.situation.or inherited, parent⟩]
  | .block head children =>
      Node.governedCallsOf (head.situation.or inherited) ⟨head, children⟩ children
  | _ => []

def Node.governedCallsOf (inherited : Option Situation) (parent : Block α) :
    List (Node α) → List (GovernedCall α)
  | [] => []
  | n :: rest => n.governedCalls inherited parent ++ Node.governedCallsOf inherited parent rest

end

def Block.governedCalls (b : Block α) : List (GovernedCall α) :=
  Node.governedCallsOf b.head.situation b b.children

/-!
# Call sites
-/

structure CallSite where
  call : Call
  path : List BlockHead

namespace CallSite

/-- The situation of the call itself, or else that of the nearest block that has one. -/
def situation? (s : CallSite) : Option Situation :=
  s.call.situation.or (s.path.findSome? BlockHead.situation)

def block? (s : CallSite) : Option BlockHead :=
  s.path.head?

def inExpansion (s : CallSite) : Bool :=
  s.path.any fun head => head.kind.isExpansion

def constrains (s : CallSite) (name : String) : Bool :=
  s.path.any fun head => head.allocations.any fun a => a.covers name

end CallSite

mutual

def Node.callSites (path : List BlockHead) : Node α → List CallSite
  | .call c => [⟨c, path⟩]
  | .block head children => Node.callSitesOf (head :: path) children
  | _ => []

def Node.callSitesOf (path : List BlockHead) : List (Node α) → List CallSite
  | [] => []
  | n :: rest => n.callSites path ++ Node.callSitesOf path rest

end

def Block.callSites (b : Block α) : List CallSite :=
  b.toNode.callSites []

end Stimulus
