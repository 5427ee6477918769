import Stimulus.InPlace
import Stimulus.Table.OrderedMap
import Stimulus.Tree.Labels

/-!
# Labels with an index

## Positions of a name

The declarations stand in a row, and an index leads from a name to the positions of its
declarations.  A name that is looked up for a declaration is entered into the index at
once, before it is known whether the declaration is accepted.

## References

A reference follows the index.  Of the declarations around a block it takes the one that
comes out deepest, and else it counts those at the least distance.
-/

namespace Stimulus

open InPlace

structure IndexedLabels where
  table : Labels := {}
  slots : OrderedMap String (List Nat) := {}

namespace IndexedLabels

def entered (t : IndexedLabels) (name : String) : IndexedLabels :=
  if t.slots.contains name then t else { t with slots := t.slots.insert name [] }

def positions (t : IndexedLabels) (name : String) : List Nat :=
  (t.slots.get? name).getD []

def isDeclared (t : IndexedLabels) (entry : LabelDeclaration) : Bool :=
  (t.positions entry.name).any fun position =>
    (t.table.entries[position]?).any fun e => e.scope == entry.scope

def declare (entry : LabelDeclaration) : InPlace IndexedLabels Unit := do
  modify fun t => t.entered entry.name
  let t ← get
  refuseIf (t.isDeclared entry = true)
    (.structural (.labelDeclaredTwice entry.name entry.scope))
  let found := t.positions entry.name ++ [t.table.entries.length]
  modify fun t => { t with slots := t.slots.insert entry.name found }
  modify fun t => { t with table := ⟨t.table.entries ++ [entry]⟩ }

/-!
# References
-/

def candidates (t : IndexedLabels) (name : String) : List LabelDeclaration :=
  (t.positions name).filterMap fun position => t.table.entries[position]?

/-- Of two entries that lie equally deep, the later one. -/
def deeper (best e : LabelDeclaration) : LabelDeclaration :=
  if e.scope.depth < best.scope.depth then best else e

def deepest? : List LabelDeclaration → Option LabelDeclaration
  | [] => none
  | e :: rest => some (rest.foldl deeper e)

/-- The place of the only entry, or else the number of entries. -/
def sole (name : String) (closest : List LabelDeclaration) : Except StructureFault LabelPlace :=
  match closest.head?, closest.tail.length with
  | some entry, 0 => .ok entry.place
  | _, rest => .error (.labelAmbiguous name (rest + 1))

def resolve (t : IndexedLabels) (name : String) (origin : BlockId) :
    Except StructureFault LabelPlace :=
  let candidates := t.candidates name
  if candidates.isEmpty then .error (.labelNeverDeclared name)
  else
    match deepest? (candidates.filter fun e => e.scope.encloses origin) with
    | some entry => .ok entry.place
    | none =>
        let distances := candidates.map fun e => e.scope.distance origin
        let least := distances.min?.getD (UInt64.size - 1)
        sole name (candidates.filter fun e => e.scope.distance origin == least)

end IndexedLabels
end Stimulus
