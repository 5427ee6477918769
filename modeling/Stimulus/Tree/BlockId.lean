/-!
# Block identities

## Positions in the block tree

A block is identified by its path from the template root: every nested block
appends the index under which it was opened.  Enclosure is the relation of
initial segments, so it can be read off two paths alone.
-/

namespace Stimulus

structure BlockId where
  path : List Nat
deriving DecidableEq

namespace BlockId

def root : BlockId :=
  ⟨[]⟩

def child (b : BlockId) (index : Nat) : BlockId :=
  ⟨b.path ++ [index]⟩

def depth (b : BlockId) : Nat :=
  b.path.length

def isRoot (b : BlockId) : Bool :=
  b.path.isEmpty

def encloses (a b : BlockId) : Bool :=
  a.path.isPrefixOf b.path

def sharedLength : List Nat → List Nat → Nat
  | i :: p, j :: q => if i = j then sharedLength p q + 1 else 0
  | _, _ => 0

/-- The number of tree edges between two blocks, through their last common ancestor. -/
def distance (a b : BlockId) : Nat :=
  let shared := sharedLength a.path b.path
  (a.depth - shared) + (b.depth - shared)

/-- Blocks are ordered by their paths lexicographically: parents come before
their children, and siblings stand in the order in which they were opened. -/
instance : LT BlockId :=
  ⟨fun a b => a.path < b.path⟩

instance : LE BlockId :=
  ⟨fun a b => ¬ b < a⟩

instance (a b : BlockId) : Decidable (a < b) :=
  inferInstanceAs (Decidable (a.path < b.path))

instance (a b : BlockId) : Decidable (a ≤ b) :=
  inferInstanceAs (Decidable (¬ b < a))

def text (b : BlockId) : String :=
  b.path.foldl (fun acc index => acc ++ "." ++ toString index) "root"

end BlockId
end Stimulus
