import Stimulus.Sealed.Event
import Stimulus.Tree.CallSite

/-!
# Uses of placeholders

## Argument positions

A use is an argument position of a call at which a placeholder stands, together
with the primitive that owns the position and the blocks around the call.  Uses
are listed in depth-first order.

## Governing situations

The replay of a template and the list of its call sites report the same calls,
within the same blocks and under the same situations.
-/

namespace Stimulus

/-- A placeholder where it stands: as an argument of `owner` in the call of `site`. -/
structure PlaceholderUse where
  site : CallSite
  owner : Primitive
  placeholder : Placeholder

namespace PlaceholderUse

def unknown? (u : PlaceholderUse) : Option Nat :=
  match u.placeholder with
  | .unknown index => some index
  | .lazy _ => none

def lazy? (u : PlaceholderUse) : Option Nat :=
  match u.placeholder with
  | .unknown _ => none
  | .lazy index => some index

theorem unknown?_eq_some {u : PlaceholderUse} {index : Nat} :
    u.unknown? = some index ↔ u.placeholder = .unknown index := by
  unfold unknown?
  cases u.placeholder <;> simp

theorem lazy?_eq_some {u : PlaceholderUse} {index : Nat} :
    u.lazy? = some index ↔ u.placeholder = .lazy index := by
  unfold lazy?
  cases u.placeholder <;> simp

end PlaceholderUse

namespace CallSite

def useAt? (s : CallSite) (slot : Slot) : Option PlaceholderUse :=
  match slot.argument with
  | .placeholder placeholder => some ⟨s, slot.owner, placeholder⟩
  | _ => none

def uses (s : CallSite) : List PlaceholderUse :=
  s.call.primitive.slots.filterMap s.useAt?

end CallSite

theorem Node.callSitesOf_eq {α : Type} (path : List BlockHead) (children : List (Node α)) :
    Node.callSitesOf path children = children.flatMap (Node.callSites path) := by
  induction children with
  | nil =>
      rfl
  | cons n rest ih =>
      rw [Node.callSitesOf, ih, List.flatMap_cons]

def Block.allCallSites (blocks : List (Block Empty)) : List CallSite :=
  blocks.flatMap Block.callSites

def Block.allUses (blocks : List (Block Empty)) : List PlaceholderUse :=
  (allCallSites blocks).flatMap CallSite.uses

namespace SealedTemplate

def callSites (t : SealedTemplate) : List CallSite :=
  Block.allCallSites t.phases.toList

def uses (t : SealedTemplate) : List PlaceholderUse :=
  Block.allUses t.phases.toList

end SealedTemplate

/-!
# Calls of a replay
-/

/-- The calls among some events, each with the situation that is reported for it
and the heads of the blocks that are open around it, the innermost first. -/
def Event.callsWithin :
    List BlockHead → List Event → List (Call × Option Situation × List BlockHead)
  | _, [] => []
  | path, .blockStart block :: rest => callsWithin (block.head :: path) rest
  | path, .blockStop _ :: rest => callsWithin path.tail rest
  | path, .call c situation :: rest => (c, situation, path) :: callsWithin path rest
  | path, _ :: rest => callsWithin path rest

def CallSite.reported (s : CallSite) : Call × Option Situation × List BlockHead :=
  (s.call, s.situation?, s.path)

theorem findSome?_situation (head : BlockHead) (path : List BlockHead) :
    (head :: path).findSome? BlockHead.situation =
      head.situation.or (path.findSome? BlockHead.situation) := by
  cases h : head.situation with
  | none =>
      simp [List.findSome?, h]
  | some s =>
      simp [List.findSome?, h]

mutual

theorem Node.callsWithin_events (parent : Block Empty) (path : List BlockHead)
    (later : List Event) : ∀ n : Node Empty,
      Event.callsWithin path
          (n.events parent (path.findSome? BlockHead.situation) ++ later) =
        (n.callSites path).map CallSite.reported ++ Event.callsWithin path later
  | .call c => rfl
  | .block head children => by
      have hchildren := Node.callsWithin_eventsOf ⟨head, children⟩ (head :: path)
        (.blockStop ⟨head, children⟩ :: later) children
      rw [findSome?_situation] at hchildren
      rw [Node.events, Node.callSites, List.cons_append, Event.callsWithin,
        List.append_assoc, List.singleton_append, hchildren]
      rfl
  | .label name => rfl
  | .output o => rfl
  | .directive d => rfl
  | .access a => a.elim

theorem Node.callsWithin_eventsOf (parent : Block Empty) (path : List BlockHead)
    (later : List Event) : ∀ children : List (Node Empty),
      Event.callsWithin path
          (Node.eventsOf parent (path.findSome? BlockHead.situation) children ++ later) =
        (Node.callSitesOf path children).map CallSite.reported ++
          Event.callsWithin path later
  | [] => rfl
  | n :: rest => by
      rw [Node.eventsOf, Node.callSitesOf, List.append_assoc,
        Node.callsWithin_events parent path _ n,
        Node.callsWithin_eventsOf parent path later rest, List.map_append,
        List.append_assoc]

end

theorem Block.callsWithin_events (blocks : List (Block Empty)) (later : List Event) :
    Event.callsWithin [] (blocks.flatMap Block.events ++ later) =
      (allCallSites blocks).map CallSite.reported ++ Event.callsWithin [] later := by
  induction blocks with
  | nil =>
      rfl
  | cons b rest ih =>
      have hfirst :=
        Node.callsWithin_events b [] (rest.flatMap Block.events ++ later) b.toNode
      rw [allCallSites] at ih ⊢
      rw [List.flatMap_cons, List.flatMap_cons, List.append_assoc, List.map_append,
        List.append_assoc, ← ih]
      exact hfirst

theorem Event.callsWithin_dataPlaced (sections : List Data.Section) (later : List Event) :
    callsWithin [] (sections.map dataPlaced ++ later) = callsWithin [] later := by
  induction sections with
  | nil =>
      rfl
  | cons contents rest ih =>
      exact ih

theorem SealedTemplate.callsWithin_replay (t : SealedTemplate) :
    Event.callsWithin [] t.replay = t.callSites.map CallSite.reported := by
  let stop : List Event := [.templateStop t.name]
  let trees := t.phases.toList.flatMap Block.events
  calc
    Event.callsWithin [] t.replay
        = Event.callsWithin [] (t.data.sections.map .dataPlaced ++ (trees ++ stop)) := by
      rw [← List.append_assoc]
      rfl
    _ = Event.callsWithin [] (trees ++ stop) :=
      Event.callsWithin_dataPlaced _ _
    _ = t.callSites.map CallSite.reported ++ Event.callsWithin [] stop :=
      Block.callsWithin_events _ _
    _ = t.callSites.map CallSite.reported :=
      List.append_nil _

end Stimulus
