import Stimulus.Refusal
import Stimulus.Table.OrderedMap

/-!
# Models

## The primitives a processor offers

A model lists instructions, addressing modes and operations with the number of
arguments that each takes.  Every kind has names of its own.  A later definition
under the same key takes the place of the earlier one, and the spelling of the
last definition is the canonical one.
-/

namespace Stimulus

structure ModelEntry where
  kind : PrimitiveKind
  name : String
  arity : Nat
deriving DecidableEq

structure Model where
  name : String
  table : OrderedMap (PrimitiveKind × Key) ModelEntry

namespace Model

def named (name : String) : Model :=
  ⟨name, {}⟩

def define (m : Model) (entry : ModelEntry) : Model :=
  { m with table := m.table.insert (entry.kind, Key.ofName entry.name) entry }

def ofEntries (name : String) (entries : List ModelEntry) : Model :=
  entries.foldl define (named name)

def entries (m : Model) : List ModelEntry :=
  m.table.values

def atKey? (m : Model) (kind : PrimitiveKind) (key : Key) : Option ModelEntry :=
  m.table.get? (kind, key)

def find? (m : Model) (kind : PrimitiveKind) (name : String) : Option ModelEntry :=
  m.atKey? kind (Key.ofName name)

def resolve (m : Model) (kind : PrimitiveKind) (name : String) (count : Nat) :
    Except Refusal ModelEntry :=
  match m.find? kind name with
  | none => .error (.structural (.notInModel name))
  | some entry =>
      if entry.arity = count then .ok entry
      else .error (.argument (.arity entry.name entry.arity count))

def primitive (m : Model) (kind : PrimitiveKind) (name : String)
    (args : List Argument) : Except Refusal Primitive := do
  let entry ← m.resolve kind name args.length
  return ⟨kind, entry.name, args⟩

end Model
/-!
# Models with an index

The entries of a model stand in a row, and an index leads from the kind and the key of each
entry to its position.  A later definition under the same kind and key is written over the
earlier one where that stands.
-/

def ModelEntry.place (entry : ModelEntry) : PrimitiveKind × Key :=
  (entry.kind, Key.ofName entry.name)

structure IndexedModel where
  name : String
  table : IndexedTable (PrimitiveKind × Key) ModelEntry

namespace IndexedModel

def named (name : String) : IndexedModel :=
  ⟨name, {}⟩

def define (m : IndexedModel) (entry : ModelEntry) : IndexedModel :=
  { m with table := m.table.insert entry.place entry }

def ofEntries (name : String) (entries : List ModelEntry) : IndexedModel :=
  entries.foldl define (named name)

def find? (m : IndexedModel) (kind : PrimitiveKind) (name : String) : Option ModelEntry :=
  m.table.get? (kind, Key.ofName name)

end IndexedModel

end Stimulus
