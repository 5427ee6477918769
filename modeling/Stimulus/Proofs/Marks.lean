import Stimulus.Proofs.Unrolling
import Stimulus.Sealed.Event

/-!
# Marks

## What an event shows of a build

The mark of an event is that part of it which is settled when the event is
caused.  Situations and attributes may be added later, and do not count.

## Marks of a tree

The marks can be read off a tree as it is built, before its accesses are replaced.
-/

namespace Stimulus

inductive Mark where
  | blockStart (id : BlockId) (kind : BlockKind)
  | blockStop (id : BlockId)
  | label (name : String) (block : BlockId)
  | call (primitive : Primitive)
  | output (output : Output)
  | directive (directive : Directive)

namespace Mark

def within (id : BlockId) (kind : BlockKind) (inner : List Mark) : List Mark :=
  .blockStart id kind :: (inner ++ [.blockStop id])

end Mark

namespace Event

def mark? : Event → Option Mark
  | blockStart block => some (.blockStart block.head.id block.head.kind)
  | blockStop block => some (.blockStop block.head.id)
  | label name block => some (.label name block.head.id)
  | call c _ => some (.call c.primitive)
  | output o => some (.output o)
  | directive d => some (.directive d)
  | _ => none

def marks (events : List Event) : List Mark :=
  events.filterMap mark?

theorem marks_append (front back : List Event) :
    marks (front ++ back) = marks front ++ marks back :=
  List.filterMap_append

theorem marks_dataPlaced (sections : List Data.Section) :
    marks (sections.map dataPlaced) = [] := by
  induction sections with
  | nil =>
      rfl
  | cons contents rest ih =>
      exact ih

end Event

/-!
# Marks of a tree
-/

def Mark.expansion (block : BlockId) (calls : List Primitive) : List Mark :=
  Mark.within block .expansion (calls.map .call)

mutual

def Node.marks (calls : StreamAccess → List Primitive) (parent : BlockId) :
    Node StreamAccess → List Mark
  | .call c => [.call c.primitive]
  | .block head children => Mark.within head.id head.kind (Node.marksOf calls head.id children)
  | .label name => [.label name parent]
  | .output o => [.output o]
  | .directive d => [.directive d]
  | .access a => Mark.expansion a.block (calls a)

def Node.marksOf (calls : StreamAccess → List Primitive) (parent : BlockId) :
    List (Node StreamAccess) → List Mark
  | [] => []
  | n :: rest => n.marks calls parent ++ Node.marksOf calls parent rest

end

theorem Node.marksOf_append (calls : StreamAccess → List Primitive) (parent : BlockId)
    (front back : List (Node StreamAccess)) :
    Node.marksOf calls parent (front ++ back) =
      Node.marksOf calls parent front ++ Node.marksOf calls parent back := by
  induction front with
  | nil =>
      rfl
  | cons n rest ih =>
      rw [List.cons_append, Node.marksOf, Node.marksOf, ih, List.append_assoc]

theorem Node.marksOf_singleton (calls : StreamAccess → List Primitive) (parent : BlockId)
    (n : Node StreamAccess) : Node.marksOf calls parent [n] = n.marks calls parent := by
  rw [Node.marksOf, Node.marksOf, List.append_nil]

/-!
# Marks of the unrolled tree
-/

theorem Node.marks_eventsOf_calls (parent : Block Empty) (inherited : Option Situation)
    (calls : List Primitive) :
    Event.marks (Node.eventsOf parent inherited (calls.map fun p => .call ⟨p, none⟩)) =
      calls.map Mark.call := by
  induction calls with
  | nil =>
      rfl
  | cons p rest ih =>
      rw [List.map_cons, Node.eventsOf, Event.marks_append, ih]
      rfl

theorem Node.marks_events_block (parent : Block Empty) (inherited : Option Situation)
    (head : BlockHead) (children : List (Node Empty)) :
    Event.marks ((Node.block head children).events parent inherited) =
      Mark.within head.id head.kind
        (Event.marks (Node.eventsOf ⟨head, children⟩ (head.situation.or inherited) children)) := by
  have hstop : Event.marks [.blockStop ⟨head, children⟩] = [.blockStop head.id] := rfl
  rw [Node.events, Mark.within, ← hstop, ← Event.marks_append]
  rfl

theorem StreamAccess.marks_events (calls : List Primitive) (a : StreamAccess)
    (parent : Block Empty) (inherited : Option Situation) :
    Event.marks ((a.unrolled calls).events parent inherited) = Mark.expansion a.block calls := by
  rw [StreamAccess.unrolled, Node.marks_events_block, Node.marks_eventsOf_calls,
    Mark.expansion]

mutual

theorem Node.marks_events (calls : StreamAccess → List Primitive) (parent : Block Empty)
    (inherited : Option Situation) : ∀ n : Node StreamAccess,
      Event.marks ((n.unrolled calls).events parent inherited) = n.marks calls parent.head.id
  | .call c => rfl
  | .block head children => by
      rw [Node.unrolled, Node.marks_events_block, Node.marks_eventsOf calls _ _ children,
        Node.marks]
  | .label name => rfl
  | .output o => rfl
  | .directive d => rfl
  | .access a => by
      rw [Node.unrolled, StreamAccess.marks_events, Node.marks]

theorem Node.marks_eventsOf (calls : StreamAccess → List Primitive) (parent : Block Empty)
    (inherited : Option Situation) : ∀ children : List (Node StreamAccess),
      Event.marks (Node.eventsOf parent inherited (Node.unrolledAll calls children)) =
        Node.marksOf calls parent.head.id children
  | [] => rfl
  | n :: rest => by
      rw [Node.unrolledAll, Node.eventsOf, Event.marks_append,
        Node.marks_events calls parent inherited n,
        Node.marks_eventsOf calls parent inherited rest, Node.marksOf]

end

theorem Block.marks_events (calls : StreamAccess → List Primitive) (b : Block StreamAccess) :
    Event.marks (b.unrolled calls).events =
      Mark.within b.head.id b.head.kind (Node.marksOf calls b.head.id b.children) := by
  have hblock := Node.marks_events calls (b.unrolled calls) none b.toNode
  rw [Block.toNode, Node.unrolled, Node.marks] at hblock
  exact hblock

theorem SealedTemplate.marks_replay (t : SealedTemplate) :
    Event.marks t.replay = t.phases.toList.flatMap fun b => Event.marks b.events := by
  let stop : List Event := [.templateStop t.name]
  let trees := t.phases.toList.flatMap Block.events
  calc
    Event.marks t.replay
        = Event.marks ((t.data.sections.map .dataPlaced ++ trees) ++ stop) := rfl
    _ = Event.marks trees := by
      rw [Event.marks_append, Event.marks_append, Event.marks_dataPlaced]
      exact List.append_nil _
    _ = t.phases.toList.flatMap fun b => Event.marks b.events := by
      rw [Event.marks, List.filterMap_flatMap]
      rfl

end Stimulus
