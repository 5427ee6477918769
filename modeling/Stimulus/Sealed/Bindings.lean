import Stimulus.Build.Context

/-!
# Bindings of placeholders

## Sources

Sealing binds every placeholder in the arguments of a call to one producer.  The
value of an unknown comes from the situation that governs the call, else from
the allocator if the unknown is an argument of a mode, else from the default
test data.  A lazy reference is bound to the place of its label.

## Reuse

A placeholder stands at one argument position.  The registers of a stream are
repeated in every expansion, so a placeholder that was first bound in an
expansion may occur again in expansions.
-/

namespace Stimulus

inductive Producer where
  | situation (name : String)
  | allocation (resourceClass : String) (constrained : Bool)
  | defaultTestData
deriving DecidableEq

def Producer.text : Producer → String
  | situation name => "situation " ++ name
  | allocation resourceClass constrained =>
      "allocator " ++ resourceClass ++ (if constrained then " (constrained)" else "")
  | defaultTestData => "default test data"

structure ResolvedLabel where
  label : String
  place : LabelPlace
deriving DecidableEq

/-- The bindings, in the order in which the placeholders occur. -/
structure Bindings where
  unknowns : OrderedMap Nat Producer := {}
  lazies : OrderedMap Nat ResolvedLabel := {}

namespace Bindings

def binds (r : Bindings) : Placeholder → Bool
  | .unknown index => r.unknowns.contains index
  | .lazy index => r.lazies.contains index

end Bindings

structure Sources where
  options : Options
  labels : Labels
  requests : List LabelRequest

/-- A call with what is in force where it stands: the situation that governs it, and
the constraints of the blocks around it, the last one first. -/
structure VisitedCall where
  call : Call
  situation : Option Situation
  inExpansion : Bool
  allocations : List Allocation

namespace Sources

def producer (sources : Sources) (v : VisitedCall) (owner : Primitive)
    (placeholder : Placeholder) : Except StructureFault Producer :=
  match v.situation with
  | some s => .ok (.situation s.name)
  | none =>
      if owner.kind = .mode then
        .ok (.allocation owner.name (v.allocations.any fun a => a.covers owner.name))
      else if sources.options.defaultTestData then .ok .defaultTestData
      else .error (.placeholderUncovered v.call.primitive placeholder)

/-- What a lazy reference denotes; it has to have been issued by the context. -/
def resolved (sources : Sources) (v : VisitedCall) (index : Nat) :
    Except StructureFault ResolvedLabel :=
  match sources.requests[index]? with
  | none => .error (.placeholderUncovered v.call.primitive (.lazy index))
  | some request => do
      let place ← sources.labels.resolve request.label request.origin
      return ⟨request.label, place⟩

end Sources

/-- The bindings made so far, and the placeholders first bound in an expansion. -/
structure BindingState where
  bindings : Bindings := {}
  shared : List Placeholder := []

namespace BindingState

def record (st : BindingState) (v : VisitedCall) (placeholder : Placeholder)
    (bindings : Bindings) : BindingState where
  bindings := bindings
  shared := if v.inExpansion then placeholder :: st.shared else st.shared

def bind (sources : Sources) (st : BindingState) (v : VisitedCall) (owner : Primitive)
    (placeholder : Placeholder) : Except StructureFault BindingState :=
  if st.bindings.binds placeholder then
    if v.inExpansion && st.shared.contains placeholder then .ok st
    else .error (.placeholderRepeated placeholder)
  else
    match placeholder with
    | .unknown index => do
        let found ← sources.producer v owner placeholder
        return st.record v placeholder
          { st.bindings with unknowns := st.bindings.unknowns.insert index found }
    | .lazy index => do
        let found ← sources.resolved v index
        return st.record v placeholder
          { st.bindings with lazies := st.bindings.lazies.insert index found }

def bindSlots (sources : Sources) (st : BindingState) (v : VisitedCall) :
    List Slot → Except StructureFault BindingState
  | [] => .ok st
  | ⟨.placeholder placeholder, owner⟩ :: rest => do
      let st ← st.bind sources v owner placeholder
      st.bindSlots sources v rest
  | _ :: rest => st.bindSlots sources v rest

def bindCall (sources : Sources) (st : BindingState) (v : VisitedCall) :
    Except StructureFault BindingState :=
  st.bindSlots sources v v.call.primitive.slots

end BindingState

/-!
# Visits
-/

/-- What is bound, and the stack of the constraints of the blocks that are being
visited, the last one first. -/
structure VisitState where
  bound : BindingState
  allocations : List Allocation

namespace VisitState

def bindCall (sources : Sources) (c : Call) (situation : Option Situation)
    (inExpansion : Bool) : VisitState → Except StructureFault VisitState
  | ⟨bound, allocations⟩ => do
      let v : VisitedCall := ⟨c, c.situation.or situation, inExpansion, allocations⟩
      let bound ← bound.bindCall sources v
      return ⟨bound, allocations⟩

def enter (head : BlockHead) : VisitState → VisitState
  | ⟨bound, allocations⟩ => ⟨bound, head.allocations.reverse ++ allocations⟩

def leave (head : BlockHead) : VisitState → VisitState
  | ⟨bound, allocations⟩ => ⟨bound, allocations.drop head.allocations.length⟩

end VisitState

mutual

/-- Binds the placeholders in a node; the situation and the flag are handed down from
block to block, and the constraints of a block are in force while it is visited. -/
def Node.visit (sources : Sources) (situation : Option Situation) (inExpansion : Bool)
    (st : VisitState) : Node Empty → Except StructureFault VisitState
  | .call c => st.bindCall sources c situation inExpansion
  | .block head children => do
      let st ← Node.visitAll sources (head.situation.or situation)
        (inExpansion || head.kind.isExpansion) (st.enter head) children
      return st.leave head
  | _ => .ok st

def Node.visitAll (sources : Sources) (situation : Option Situation) (inExpansion : Bool)
    (st : VisitState) : List (Node Empty) → Except StructureFault VisitState
  | [] => .ok st
  | n :: rest => do
      let st ← n.visit sources situation inExpansion st
      Node.visitAll sources situation inExpansion st rest

end

def BindingState.visitRoots (sources : Sources) (st : BindingState) :
    List (Block Empty) → Except StructureFault BindingState
  | [] => .ok st
  | b :: rest => do
      let ⟨st, _⟩ ← b.toNode.visit sources none false ⟨st, []⟩
      st.visitRoots sources rest

def Sources.resolve (sources : Sources) (blocks : List (Block Empty)) :
    Except StructureFault Bindings := do
  let st ← ({} : BindingState).visitRoots sources blocks
  return st.bindings

end Stimulus
