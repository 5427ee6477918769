import Stimulus.Sealed.Basic

/-!
# Events

## Replaying a template

An engine consumes a sealed template as a sequence of events: the data sections
first, then the trees of the phases, depth first in the order of the children.
Every call comes with the situation that governs it.
-/

namespace Stimulus

inductive Event where
  | templateStart (name : String)
  | dataPlaced (contents : Data.Section)
  | blockStart (block : Block Empty)
  | label (name : String) (block : Block Empty)
  | call (call : Call) (situation : Option Situation)
  | output (output : Output)
  | directive (directive : Directive)
  | blockStop (block : Block Empty)
  | templateStop (name : String)

mutual

/-- The events of a child of `parent`; `inherited` is the situation of the nearest
enclosing block that has one. -/
def Node.events (parent : Block Empty) (inherited : Option Situation) :
    Node Empty → List Event
  | .call c => [.call c (c.situation.or inherited)]
  | .block head children =>
      .blockStart ⟨head, children⟩ ::
        (Node.eventsOf ⟨head, children⟩ (head.situation.or inherited) children ++
          [.blockStop ⟨head, children⟩])
  | .label name => [.label name parent]
  | .output o => [.output o]
  | .directive d => [.directive d]
  | .access a => a.elim

def Node.eventsOf (parent : Block Empty) (inherited : Option Situation) :
    List (Node Empty) → List Event
  | [] => []
  | n :: rest => n.events parent inherited ++ Node.eventsOf parent inherited rest

end

def Block.events (b : Block Empty) : List Event :=
  b.toNode.events b none

def SealedTemplate.replay (t : SealedTemplate) : List Event :=
  .templateStart t.name ::
    (t.data.sections.map .dataPlaced ++ t.phases.toList.flatMap Block.events ++
      [.templateStop t.name])

namespace Event

def addressText (address : UInt64) : String :=
  toString address.toNat

def text : Event → String
  | templateStart name => "begin template " ++ name
  | dataPlaced contents =>
      "data " ++ addressText contents.start ++ ".." ++ addressText contents.stop ++ " " ++
        toString contents.records.length
  | blockStart block => "begin " ++ block.head.id.text
  | label name block => "label " ++ name ++ " in " ++ block.head.id.text
  | call c none => "call " ++ c.primitive.text
  | call c (some s) => "call " ++ c.primitive.text ++ " under " ++ s.text
  | output o => "output " ++ o.format
  | directive (.origin address relative) =>
      "org " ++ (if relative then "+" else "") ++ addressText address
  | directive (.align alignment) => "align " ++ addressText alignment
  | blockStop block =>
      "end " ++ block.head.id.text ++ " " ++ toString block.children.length
  | templateStop name => "end template " ++ name

def listingLine? : Event → Option String
  | label name _ => some (name ++ ":")
  | call c _ => some ("  " ++ c.primitive.text)
  | output o => some o.format
  | _ => none

end Event

def SealedTemplate.listing (t : SealedTemplate) : List String :=
  t.replay.filterMap Event.listingLine?

end Stimulus
