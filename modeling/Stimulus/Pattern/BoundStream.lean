import Stimulus.Pattern.Stream

/-!
# Streams

## Binding

A stream is an array bound to a data register, an index register and the label
where it starts.  The preparator is copied when the stream is bound, so that
later registrations leave the stream as it is.

## Expansion

An access to a stream expands to the calls of one part of its preparator.
-/

namespace Stimulus

structure StreamId where
  index : Nat
deriving DecidableEq

def StreamId.text (id : StreamId) : String :=
  "stream#" ++ toString id.index

structure BoundStream where
  id : StreamId
  label : String
  data : Primitive
  index : Primitive
  length : Nat
  preparator : StreamPreparator
deriving DecidableEq

namespace BoundStream

def fill (b : BoundStream) (start : UInt64) : StreamHole → Except ArgumentFault Argument
  | .data => .ok b.data.toArgument
  | .index => .ok b.index.toArgument
  | .startLabel => Argument.ofWord start

def expand (b : BoundStream) (part : StreamPart) (start : UInt64) :
    Except ArgumentFault (List Primitive) :=
  CallPattern.instantiateAll (b.fill start) (b.preparator.part part)

end BoundStream

/-- The bound streams; the identity of a stream is its position. -/
structure Streams where
  bound : List BoundStream := []
deriving DecidableEq

namespace Streams

def get? (t : Streams) (id : StreamId) : Option BoundStream :=
  t.bound[id.index]?

def get (t : Streams) (id : StreamId) : Except StructureFault BoundStream :=
  match t.get? id with
  | some b => .ok b
  | none => .error (.noStream id.text)

def find? (t : Streams) (label : String) : Option BoundStream :=
  t.bound.find? fun b => b.label == label

def find (t : Streams) (label : String) : Except StructureFault BoundStream :=
  match t.find? label with
  | some b => .ok b
  | none => .error (.noStream label)

/-- Binds a stream; the registers are checked first, then the length, the label,
and the preparator. -/
def bind (t : Streams) (registry : StreamRegistry) (label : String)
    (data index : Primitive) (length : Nat) :
    Except Refusal (BoundStream × Streams) :=
  if data.kind ≠ .mode then .error (.argument (.notAMode .streamData data))
  else if index.kind ≠ .mode then .error (.argument (.notAMode .streamIndex index))
  else if length = 0 then .error (.argument (.notPositive .streamLength))
  else if (t.find? label).isSome then .error (.structural (.streamLabelTaken label))
  else
    match registry.find (StreamKey.ofNames data.name index.name) with
    | .error cause => .error (.structural cause)
    | .ok preparator =>
        let stream : BoundStream :=
          ⟨⟨t.bound.length⟩, label, data, index, length, preparator⟩
        .ok (stream, ⟨t.bound ++ [stream]⟩)

end Streams
end Stimulus
