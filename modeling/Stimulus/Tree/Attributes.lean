import Stimulus.Table.OrderedMap
import Stimulus.Tree.BlockId

/-!
# Kinds and attributes of blocks

## Kinds

A user opens plain blocks, sequences, atomic blocks and iterations.  Phase roots
and the blocks that stand for stream accesses are made by the builder.

## Inheritance

Attributes are opaque to the builder.  What a block leaves unset it takes over
from the block around it.
-/

namespace Stimulus

inductive ScopeKind where
  | plain
  | sequence
  | atomic
  | iterate
deriving DecidableEq

inductive BlockKind where
  | user (kind : ScopeKind)
  | phaseRoot
  | expansion
deriving DecidableEq

inductive BlockFlag where
  | atomic
  | sequence
  | iterate
  | phaseRoot
  | streamExpansion
deriving DecidableEq

namespace BlockKind

/-- The flags of a block: the calls of a stream access are atomic as well. -/
def flags : BlockKind → List BlockFlag
  | user .plain => []
  | user .sequence => [.sequence]
  | user .atomic => [.atomic]
  | user .iterate => [.iterate]
  | phaseRoot => [.phaseRoot]
  | expansion => [.atomic, .streamExpansion]

def isAtomic (k : BlockKind) : Bool :=
  k.flags.contains .atomic

def isSequence (k : BlockKind) : Bool :=
  k.flags.contains .sequence

def isExpansion (k : BlockKind) : Bool :=
  k.flags.contains .streamExpansion

end BlockKind

inductive AttributeValue where
  | int (value : Int64)
  | flag (value : Bool)
  | word (value : String)
  | map (entries : List (String × AttributeValue))

def AttributeValue.ofEntries (entries : List (String × AttributeValue)) : AttributeValue :=
  .map (OrderedMap.ofList entries).entries

structure BlockAttributes where
  combinator : Option String := none
  compositor : Option String := none
  attributes : OrderedMap String AttributeValue := {}

namespace BlockAttributes

/-- What a block is opened with, over what the block around it has. -/
def inherit (requested parent : BlockAttributes) : BlockAttributes where
  combinator := requested.combinator.or parent.combinator
  compositor := requested.compositor.or parent.compositor
  attributes := parent.attributes.override requested.attributes

end BlockAttributes
end Stimulus
