import Stimulus.InPlace
import Stimulus.Pattern.BoundStream
import Stimulus.Table.OrderedMap

/-!
# Sessions with streams

## Registering and binding

In a session preparators are registered and streams are bound, in any order.  A registration
answers the preparator that it replaces, and a binding the identity of its stream.  A
binding that is refused changes nothing.

## Streams with an index

The streams may also stand in a row with an index of their labels.  There a stream is bound
in place: the checks are made one after the other, then the label is entered into the index,
and then the stream goes to the end of the row.
-/

namespace Stimulus

inductive StreamCall where
  | register (preparator : StreamPreparator)
  | bind (label : String) (data index : Primitive) (length : Nat)

inductive StreamReply where
  | registered (replaced : Option StreamPreparator)
  | bound (id : StreamId)

/-!
# Sessions
-/

structure StreamSession where
  registry : StreamRegistry := {}
  streams : Streams := {}

namespace StreamSession

def perform (s : StreamSession) : StreamCall → Except Refusal StreamReply × StreamSession
  | .register p =>
      (.ok (.registered (s.registry.get? p.key)), { s with registry := s.registry.register p })
  | .bind label data index length =>
      match s.streams.bind s.registry label data index length with
      | .ok (stream, streams) => (.ok (.bound stream.id), { s with streams })
      | .error cause => (.error cause, s)

def run (s : StreamSession) (calls : List StreamCall) : StreamSession :=
  calls.foldl (fun s call => (s.perform call).2) s

def after (calls : List StreamCall) : StreamSession :=
  run {} calls

def replies (s : StreamSession) : List StreamCall → List (Except Refusal StreamReply)
  | [] => []
  | call :: rest => (s.perform call).1 :: (s.perform call).2.replies rest

end StreamSession

/-!
# Streams in a row
-/

abbrev IndexedStreams :=
  IndexedTable String BoundStream

namespace IndexedStreams

open InPlace

def at? (t : IndexedStreams) (id : StreamId) : Option BoundStream :=
  t.row[id.index]?

def find (t : IndexedStreams) (label : String) : Except StructureFault BoundStream :=
  match t.get? label with
  | some stream => .ok stream
  | none => .error (.noStream label)

def bind (registry : StreamRegistry) (label : String) (data index : Primitive) (length : Nat) :
    InPlace IndexedStreams StreamId := do
  refuseIf (data.kind ≠ .mode) (.argument (.notAMode .streamData data))
  refuseIf (index.kind ≠ .mode) (.argument (.notAMode .streamIndex index))
  refuseIf (length = 0) (.argument (.notPositive .streamLength))
  let t ← get
  refuseIf (t.index.contains label = true) (.structural (.streamLabelTaken label))
  let preparator ← check
    ((registry.find (.ofNames data.name index.name)).mapError .structural)
  let id : StreamId := ⟨t.row.length⟩
  modify fun t => { t with index := t.index.insert label id.index }
  modify fun t => { t with row := t.row ++ [⟨id, label, data, index, length, preparator⟩] }
  return id

end IndexedStreams

structure IndexedSession where
  registry : StreamRegistry := {}
  streams : IndexedStreams := {}

namespace IndexedSession

open InPlace

def command : StreamCall → InPlace IndexedSession StreamReply
  | .register p => do
      let s ← get
      modify fun s => { s with registry := s.registry.register p }
      return .registered (s.registry.get? p.key)
  | .bind label data index length => do
      let s ← get
      let id ← onPart (fun s => s.streams) (fun streams s => { s with streams })
        (IndexedStreams.bind s.registry label data index length)
      return .bound id

def perform (s : IndexedSession) (call : StreamCall) :
    Except Refusal StreamReply × IndexedSession :=
  (command call).call s

def run (s : IndexedSession) (calls : List StreamCall) : IndexedSession :=
  calls.foldl (fun s call => (s.perform call).2) s

def after (calls : List StreamCall) : IndexedSession :=
  run {} calls

def replies (s : IndexedSession) : List StreamCall → List (Except Refusal StreamReply)
  | [] => []
  | call :: rest => (s.perform call).1 :: (s.perform call).2.replies rest

end IndexedSession
end Stimulus
