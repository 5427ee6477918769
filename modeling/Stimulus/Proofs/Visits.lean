import Stimulus.Proofs.PlaceholderUses

/-!
# Visits of sealed trees

## Paths

The visit of a tree hands down what is in force.  At every call that is what the path
of the call site tells, so that the visit binds the call sites one after the other.

## Governed calls

The governed calls of a tree are its call sites, with no more of each path than the
situation and the block.
-/

namespace Stimulus

def BlockHead.allocationsOf (path : List BlockHead) : List Allocation :=
  path.flatMap fun head => head.allocations.reverse

namespace CallSite

/-- The call as a visit meets it. -/
def visited (s : CallSite) : VisitedCall where
  call := s.call
  situation := s.situation?
  inExpansion := s.inExpansion
  allocations := BlockHead.allocationsOf s.path

@[simp]
theorem situation_visited (s : CallSite) : s.visited.situation = s.situation? :=
  rfl

@[simp]
theorem inExpansion_visited (s : CallSite) : s.visited.inExpansion = s.inExpansion :=
  rfl

theorem covers_visited (s : CallSite) (name : String) :
    (s.visited.allocations.any fun a => a.covers name) = s.constrains name := by
  simp [visited, BlockHead.allocationsOf, constrains]

end CallSite

namespace BindingState

variable {sources : Sources}

def bindSites (sources : Sources) (st : BindingState) :
    List CallSite → Except StructureFault BindingState
  | [] => .ok st
  | site :: rest => do
      let st ← st.bindCall sources site.visited
      st.bindSites sources rest

theorem bindSites_append (st : BindingState) (front back : List CallSite) :
    st.bindSites sources (front ++ back) =
      st.bindSites sources front >>= fun next => next.bindSites sources back := by
  induction front generalizing st with
  | nil =>
      rfl
  | cons site rest ih =>
      simp only [List.cons_append, bindSites, bind_assoc, ih]

end BindingState

/-!
# One visit
-/

/-- A visit that has come down a path. -/
def VisitState.within (path : List BlockHead) (st : BindingState) : VisitState :=
  ⟨st, BlockHead.allocationsOf path⟩

theorem VisitState.enter_within (head : BlockHead) (path : List BlockHead) (st : BindingState) :
    (within path st).enter head = within (head :: path) st := by
  rfl

theorem VisitState.leave_within (head : BlockHead) (path : List BlockHead) (st : BindingState) :
    (within (head :: path) st).leave head = within path st := by
  simp [within, leave, BlockHead.allocationsOf]

section

variable {sources : Sources}

mutual

/-- A visit binds the call sites of a node, and leaves with the constraints it came with. -/
theorem Node.visit_eq (path : List BlockHead) :
    ∀ (n : Node Empty) (st : BindingState),
      n.visit sources (path.findSome? BlockHead.situation)
          (path.any fun head => head.kind.isExpansion) (.within path st) =
        st.bindSites sources (n.callSites path) >>= fun next => pure (.within path next)
  | .call c, st => by
      rw [Node.visit, Node.callSites, BindingState.bindSites, bind_assoc]
      rfl
  | .block head children, st => by
      have hinner := Node.visitAll_eq (head :: path) children st
      rw [findSome?_situation, List.any_cons, Bool.or_comm] at hinner
      rw [Node.visit, VisitState.enter_within, hinner, Node.callSites]
      simp only [bind_assoc, pure_bind, VisitState.leave_within]
  | .label _, _ => rfl
  | .output _, _ => rfl
  | .directive _, _ => rfl
  | .access a, _ => a.elim

theorem Node.visitAll_eq (path : List BlockHead) :
    ∀ (children : List (Node Empty)) (st : BindingState),
      Node.visitAll sources (path.findSome? BlockHead.situation)
          (path.any fun head => head.kind.isExpansion) (.within path st) children =
        st.bindSites sources (Node.callSitesOf path children) >>=
          fun next => pure (.within path next)
  | [], st => rfl
  | n :: rest, st => by
      rw [Node.visitAll, Node.visit_eq path n st, Node.callSitesOf,
        BindingState.bindSites_append]
      simp only [bind_assoc, pure_bind, Node.visitAll_eq path rest]

end

theorem BindingState.visitRoots_eq (blocks : List (Block Empty)) (st : BindingState) :
    st.visitRoots sources blocks = st.bindSites sources (blocks.flatMap Block.callSites) := by
  induction blocks generalizing st with
  | nil =>
      rfl
  | cons b rest ih =>
      have hroot :
          b.toNode.visit sources none false ⟨st, []⟩ =
            st.bindSites sources b.callSites >>= fun next => pure ⟨next, []⟩ :=
        Node.visit_eq [] b.toNode st
      rw [visitRoots, hroot, List.flatMap_cons, bindSites_append]
      simp only [bind_assoc, pure_bind, ih]

theorem Sources.resolve_eq_bindSites (blocks : List (Block Empty)) :
    sources.resolve blocks =
      (({} : BindingState).bindSites sources (blocks.flatMap Block.callSites) >>=
        fun st => pure st.bindings) := by
  rw [Sources.resolve, BindingState.visitRoots_eq]

end

/-!
# Governed calls
-/

section

variable {α : Type}

def GovernedCall.reported (g : GovernedCall α) : Call × Option Situation × Option BlockHead :=
  (g.call, g.situation, some g.block.head)

mutual

theorem Node.governedCalls_eq (parent : Block α) (path : List BlockHead) :
    ∀ n : Node α,
      (n.governedCalls ((parent.head :: path).findSome? BlockHead.situation) parent).map
          GovernedCall.reported =
        (n.callSites (parent.head :: path)).map fun s => (s.call, s.situation?, s.block?)
  | .call c => rfl
  | .block head children => by
      have hinner := Node.governedCallsOf_eq ⟨head, children⟩ (parent.head :: path) children
      rw [findSome?_situation] at hinner
      rw [Node.governedCalls, hinner, Node.callSites]
  | .label _ | .output _ | .directive _ | .access _ => rfl

theorem Node.governedCallsOf_eq (parent : Block α) (path : List BlockHead) :
    ∀ children : List (Node α),
      (Node.governedCallsOf ((parent.head :: path).findSome? BlockHead.situation) parent
          children).map GovernedCall.reported =
        (Node.callSitesOf (parent.head :: path) children).map
          fun s => (s.call, s.situation?, s.block?)
  | [] => rfl
  | n :: rest => by
      rw [Node.governedCallsOf, Node.callSitesOf, List.map_append, List.map_append,
        Node.governedCalls_eq parent path n, Node.governedCallsOf_eq parent path rest]

end

/-- The governed calls of a tree are its call sites, each with its situation and its
innermost block. -/
theorem Block.governedCalls_eq (b : Block α) :
    b.governedCalls.map GovernedCall.reported =
      b.callSites.map fun s => (s.call, s.situation?, s.block?) := by
  have hsites := Node.governedCallsOf_eq b [] b.children
  rw [findSome?_situation, List.findSome?_nil, Option.or_none] at hsites
  exact hsites

end

end Stimulus
