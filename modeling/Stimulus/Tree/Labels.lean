import Stimulus.Refusal

/-!
# Labels

## Scoped declarations

A code label belongs to the block that declares it; a data label belongs to the
template root and is bound to an address.  A name is declared at most once in a
scope.

## Resolution

A reference resolves to the declaration of the nearest enclosing block, else to
the single nearest declaration anywhere in the tree.  The answer depends on the
declarations alone, not on their order.
-/

namespace Stimulus

inductive LabelPlace where
  | code (block : BlockId) (position : Nat)
  | data (address : UInt64)
deriving DecidableEq

namespace LabelPlace

def address? : LabelPlace → Option UInt64
  | code _ _ => none
  | data address => some address

def text : LabelPlace → String
  | code block position => block.text ++ "@" ++ toString position
  | data address => Text.hex address.toNat

end LabelPlace

structure LabelDeclaration where
  name : String
  scope : BlockId
  place : LabelPlace
deriving DecidableEq

structure Labels where
  entries : List LabelDeclaration := []
deriving DecidableEq

namespace Labels

def declare (t : Labels) (entry : LabelDeclaration) : Except StructureFault Labels :=
  if t.entries.any fun e => e.name == entry.name && e.scope == entry.scope then
    .error (.labelDeclaredTwice entry.name entry.scope)
  else .ok ⟨t.entries ++ [entry]⟩

def declareAt (t : Labels) (name : String) (scope : BlockId) (position : Nat) :
    Except StructureFault Labels :=
  t.declare ⟨name, scope, .code scope position⟩

def declareAddress (t : Labels) (name : String) (address : UInt64) :
    Except StructureFault Labels :=
  t.declare ⟨name, .root, .data address⟩

def named (t : Labels) (name : String) : List LabelDeclaration :=
  t.entries.filter fun e => e.name == name

/-- The entry whose scope encloses `origin` most closely.  Scopes of one name are
distinct, and the blocks that enclose `origin` are nested, so there is one deepest. -/
def enclosing? (candidates : List LabelDeclaration) (origin : BlockId) : Option LabelDeclaration :=
  let around := candidates.filter fun e => e.scope.encloses origin
  around.find? fun e => around.all fun other => other.scope.depth ≤ e.scope.depth

def nearest (candidates : List LabelDeclaration) (origin : BlockId) : List LabelDeclaration :=
  candidates.filter fun e =>
    candidates.all fun other => e.scope.distance origin ≤ other.scope.distance origin

def resolve (t : Labels) (name : String) (origin : BlockId) :
    Except StructureFault LabelPlace :=
  let candidates := t.named name
  if candidates.isEmpty then .error (.labelNeverDeclared name)
  else
    match enclosing? candidates origin with
    | some entry => .ok entry.place
    | none =>
        match nearest candidates origin with
        | [entry] => .ok entry.place
        | several => .error (.labelAmbiguous name several.length)

/-- The data address that `name` denotes; code labels have none. -/
def dataAddress (t : Labels) (name : String) : Except StructureFault UInt64 :=
  match t.resolve name .root with
  | .ok (.data address) => .ok address
  | .ok (.code _ _) => .error (.labelWithoutAddress name)
  | .error (.labelAmbiguous _ _) => .error (.labelWithoutAddress name)
  | .error cause => .error cause

end Labels
end Stimulus
