import Mathlib.Algebra.Ring.Nat
import Stimulus.Proofs.Sealing

/-!
# Expansion as substitution

## Unrolled trees

Unrolling replaces every stream access of a tree by a block of calls, and leaves
everything else as it is.  It cannot fail: it is told the calls of each access.

## Expansion

The expansion that sealing performs can fail.  It succeeds on the trees all of
whose accesses can be expanded, and then it is unrolling.
-/

namespace Stimulus

open Checked

/-!
# Patterns
-/

section Patterns

variable {ρ : Type}

def Operand.subst (value : ρ → Argument) : Operand ρ → Argument
  | literal argument => argument
  | hole h => value h

def CallPattern.subst (value : ρ → Argument) (c : CallPattern ρ) : Primitive :=
  ⟨.instruction, c.mnemonic, c.operands.map (Operand.subst value)⟩

namespace CallPattern

variable {fill : ρ → Except ArgumentFault Argument} {value : ρ → Argument} {Fits : ρ → Prop}

theorem fillAll_eq_ok (hfill : ∀ h a, fill h = .ok a ↔ Fits h ∧ a = value h)
    {operands : List (Operand ρ)} {args : List Argument} :
    fillAll fill operands = .ok args ↔
      (∀ h, .hole h ∈ operands → Fits h) ∧ args = operands.map (Operand.subst value) := by
  induction operands generalizing args with
  | nil =>
      simp [fillAll, eq_comm]
  | cons operand rest ih =>
      simp only [fillAll, bind_eq_ok, pure_eq_ok, ih]
      cases operand with
      | literal argument =>
          have hholes : (∀ h, .hole h ∈ .literal argument :: rest → Fits h) ↔
              ∀ h, .hole h ∈ rest → Fits h := by
            simp
          rw [hholes]
          constructor
          · intro hparts
            rcases hparts with ⟨_, hfirst, _, ⟨hfits, rfl⟩, rfl⟩
            cases hfirst
            exact ⟨hfits, rfl⟩
          · intro hparts
            rcases hparts with ⟨hfits, rfl⟩
            exact ⟨_, rfl, _, ⟨hfits, rfl⟩, rfl⟩
      | hole h =>
          simp [Operand.fill, Operand.subst, hfill, and_assoc]

theorem instantiate_eq_ok (hfill : ∀ h a, fill h = .ok a ↔ Fits h ∧ a = value h)
    {c : CallPattern ρ} {p : Primitive} :
    c.instantiate fill = .ok p ↔
      (∀ h, .hole h ∈ c.operands → Fits h) ∧ p = c.subst value := by
  simp only [instantiate, bind_eq_ok, pure_eq_ok, fillAll_eq_ok hfill, CallPattern.subst]
  constructor
  · intro hparts
    rcases hparts with ⟨_, ⟨hfits, rfl⟩, rfl⟩
    exact ⟨hfits, rfl⟩
  · intro hparts
    rcases hparts with ⟨hfits, rfl⟩
    exact ⟨_, ⟨hfits, rfl⟩, rfl⟩

theorem instantiateAll_eq_ok (hfill : ∀ h a, fill h = .ok a ↔ Fits h ∧ a = value h)
    {patterns : List (CallPattern ρ)} {calls : List Primitive} :
    instantiateAll fill patterns = .ok calls ↔
      (∀ c ∈ patterns, ∀ h, .hole h ∈ c.operands → Fits h) ∧
        calls = patterns.map (CallPattern.subst value) := by
  induction patterns generalizing calls with
  | nil =>
      simp [instantiateAll, eq_comm]
  | cons c rest ih =>
      simp only [instantiateAll, bind_eq_ok, pure_eq_ok, ih, instantiate_eq_ok hfill,
        List.forall_mem_cons, List.map_cons]
      constructor
      · intro hparts
        rcases hparts with ⟨_, ⟨hfirst, rfl⟩, _, ⟨hrest, rfl⟩, rfl⟩
        exact ⟨⟨hfirst, hrest⟩, rfl⟩
      · intro hparts
        rcases hparts with ⟨⟨hfirst, hrest⟩, rfl⟩
        exact ⟨_, ⟨hfirst, rfl⟩, _, ⟨hrest, rfl⟩, rfl⟩

end CallPattern

end Patterns

/-!
# Streams
-/

theorem Argument.ofWord_eq_ok {word : UInt64} {a : Argument} :
    Argument.ofWord word = .ok a ↔ word.toNat < 2 ^ 63 ∧ a = .concrete word.toInt64 := by
  unfold Argument.ofWord
  by_cases h : word.toNat < Nat.pow 2 63
  · rw [if_pos h]
    constructor
    · intro heq
      cases heq
      exact ⟨h, rfl⟩
    · intro hparts
      rcases hparts with ⟨_, rfl⟩
      rfl
  · rw [if_neg h]
    constructor
    · intro heq
      cases heq
    · intro hfits
      exact absurd hfits.left h

namespace BoundStream

def holeValue (b : BoundStream) (start : UInt64) : StreamHole → Argument
  | .data => b.data.toArgument
  | .index => b.index.toArgument
  | .startLabel => .concrete start.toInt64

/-- Whether the start label is an operand of some call of the part. -/
def NeedsStart (b : BoundStream) (part : StreamPart) : Prop :=
  ∃ c ∈ b.preparator.part part, .hole .startLabel ∈ c.operands

theorem fill_eq_ok {b : BoundStream} {start : UInt64} (h : StreamHole) (a : Argument) :
    b.fill start h = .ok a ↔
      (h = .startLabel → start.toNat < 2 ^ 63) ∧ a = b.holeValue start h := by
  cases h with
  | data =>
      simp [fill, holeValue, eq_comm]
  | index =>
      simp [fill, holeValue, eq_comm]
  | startLabel =>
      simp [fill, holeValue, Argument.ofWord_eq_ok]

theorem expand_eq_ok {b : BoundStream} {part : StreamPart} {start : UInt64}
    {calls : List Primitive} :
    b.expand part start = .ok calls ↔
      (b.NeedsStart part → start.toNat < 2 ^ 63) ∧
        calls = (b.preparator.part part).map (CallPattern.subst (b.holeValue start)) := by
  unfold BoundStream.expand
  rw [CallPattern.instantiateAll_eq_ok fill_eq_ok]
  constructor
  · intro hparts
    rcases hparts with ⟨hfits, hcalls⟩
    refine ⟨?_, hcalls⟩
    intro hparts
    rcases hparts with ⟨c, hc, hhole⟩
    exact hfits c hc .startLabel hhole rfl
  · intro hparts
    rcases hparts with ⟨hfits, hcalls⟩
    refine ⟨?_, hcalls⟩
    intro c hc h hhole hstart
    rw [hstart] at hhole
    exact hfits ⟨c, hc, hhole⟩

end BoundStream

/-!
# Unrolling
-/

def BoundStream.calls (start : String → UInt64) (b : BoundStream) (part : StreamPart) :
    List Primitive :=
  (b.preparator.part part).map (CallPattern.subst (b.holeValue (start b.label)))

def Streams.calls (t : Streams) (start : String → UInt64) (a : StreamAccess) : List Primitive :=
  match t.get? a.stream with
  | some stream => stream.calls start a.part
  | none => []

def StreamAccess.unrolled (calls : List Primitive) (a : StreamAccess) : Node Empty :=
  .block
    { id := a.block
      kind := .expansion
      attributes := {}
      situation := none
      allocations := [] }
    (calls.map fun p => .call ⟨p, none⟩)

mutual

/-- Replaces every access by a block of its calls. -/
def Node.unrolled (calls : StreamAccess → List Primitive) : Node StreamAccess → Node Empty
  | .call c => .call c
  | .block head children => .block head (Node.unrolledAll calls children)
  | .label name => .label name
  | .output o => .output o
  | .directive d => .directive d
  | .access a => a.unrolled (calls a)

def Node.unrolledAll (calls : StreamAccess → List Primitive) :
    List (Node StreamAccess) → List (Node Empty)
  | [] => []
  | n :: rest => n.unrolled calls :: Node.unrolledAll calls rest

end

def Block.unrolled (calls : StreamAccess → List Primitive) (b : Block StreamAccess) :
    Block Empty :=
  ⟨b.head, Node.unrolledAll calls b.children⟩

mutual

def Node.accesses : Node StreamAccess → List StreamAccess
  | .block _ children => Node.accessesOf children
  | .access a => [a]
  | _ => []

def Node.accessesOf : List (Node StreamAccess) → List StreamAccess
  | [] => []
  | n :: rest => n.accesses ++ Node.accessesOf rest

end

def Block.accesses (b : Block StreamAccess) : List StreamAccess :=
  Node.accessesOf b.children

/-!
# Expansion
-/

/-- Where the stream of a label starts; the value without a data label is of no
account, since nothing expands then. -/
def Labels.startOf (t : Labels) (label : String) : UInt64 :=
  match t.dataAddress label with
  | .ok address => address
  | .error _ => 0

/-- The label of the stream has an address, which fits an operand where it has to
become one. -/
def BoundStream.Started (labels : Labels) (b : BoundStream) (part : StreamPart) : Prop :=
  ∃ address, labels.dataAddress b.label = .ok address ∧
    (b.NeedsStart part → address.toNat < 2 ^ 63)

/-- The access names a stream of the table, and that has a place to start. -/
def StreamAccess.Expandable (streams : Streams) (labels : Labels) (a : StreamAccess) : Prop :=
  ∃ stream, streams.get? a.stream = some stream ∧ stream.Started labels a.part

theorem Streams.get_eq_ok {t : Streams} {id : StreamId} {stream : BoundStream} :
    t.get id = .ok stream ↔ t.get? id = some stream := by
  unfold get
  cases t.get? id with
  | some found =>
      simp
  | none =>
      simp

section

variable {streams : Streams} {labels : Labels}

theorem StreamAccess.expand_eq_ok {a : StreamAccess} {n : Node Empty} :
    a.expand streams labels = .ok n ↔
      a.Expandable streams labels ∧ n = a.unrolled (streams.calls labels.startOf a) := by
  unfold StreamAccess.expand StreamAccess.Expandable BoundStream.Started Streams.calls
    BoundStream.calls Labels.startOf
  simp only [bind_eq_ok, pure_eq_ok, mapError_eq_ok, BoundStream.expand_eq_ok,
    Streams.get_eq_ok]
  constructor
  · intro hparts
    rcases hparts with ⟨stream, hstream, address, haddress, _, ⟨hfits, rfl⟩, rfl⟩
    refine ⟨⟨stream, hstream, address, haddress, hfits⟩, ?_⟩
    simp only [hstream, haddress, StreamAccess.expansion, StreamAccess.unrolled]
  · intro hparts
    rcases hparts with ⟨⟨stream, hstream, address, haddress, hfits⟩, rfl⟩
    refine ⟨stream, hstream, address, haddress, _, ⟨hfits, rfl⟩, ?_⟩
    simp only [hstream, haddress, StreamAccess.expansion, StreamAccess.unrolled]

mutual

theorem Node.expand_eq_ok : ∀ {n : Node StreamAccess} {m : Node Empty},
    n.expand streams labels = .ok m ↔
      (∀ a ∈ n.accesses, a.Expandable streams labels) ∧
        m = n.unrolled (streams.calls labels.startOf)
  | .call c, m => by
      simp [Node.expand, Node.accesses, Node.unrolled, eq_comm]
  | .block head children, m => by
      simp only [Node.expand, bind_eq_ok, pure_eq_ok, Node.expandAll_eq_ok, Node.accesses,
        Node.unrolled]
      constructor
      · intro hparts
        rcases hparts with ⟨_, ⟨hexpandable, rfl⟩, rfl⟩
        exact ⟨hexpandable, rfl⟩
      · intro hparts
        rcases hparts with ⟨hexpandable, rfl⟩
        exact ⟨_, ⟨hexpandable, rfl⟩, rfl⟩
  | .label name, m => by
      simp [Node.expand, Node.accesses, Node.unrolled, eq_comm]
  | .output o, m => by
      simp [Node.expand, Node.accesses, Node.unrolled, eq_comm]
  | .directive d, m => by
      simp [Node.expand, Node.accesses, Node.unrolled, eq_comm]
  | .access a, m => by
      simp [Node.expand, Node.accesses, Node.unrolled, StreamAccess.expand_eq_ok]

theorem Node.expandAll_eq_ok :
    ∀ {children : List (Node StreamAccess)} {expanded : List (Node Empty)},
      Node.expandAll streams labels children = .ok expanded ↔
        (∀ a ∈ Node.accessesOf children, a.Expandable streams labels) ∧
          expanded = Node.unrolledAll (streams.calls labels.startOf) children
  | [], expanded => by
      simp [Node.expandAll, Node.accessesOf, Node.unrolledAll, eq_comm]
  | n :: rest, expanded => by
      simp only [Node.expandAll, bind_eq_ok, pure_eq_ok, Node.expand_eq_ok,
        Node.expandAll_eq_ok, Node.accessesOf, Node.unrolledAll, List.forall_mem_append]
      constructor
      · intro hparts
        rcases hparts with ⟨_, ⟨hfirst, rfl⟩, _, ⟨hrest, rfl⟩, rfl⟩
        exact ⟨⟨hfirst, hrest⟩, rfl⟩
      · intro hparts
        rcases hparts with ⟨⟨hfirst, hrest⟩, rfl⟩
        exact ⟨_, ⟨hfirst, rfl⟩, _, ⟨hrest, rfl⟩, rfl⟩

end

theorem Block.expand_eq_ok {b : Block StreamAccess} {b' : Block Empty} :
    b.expand streams labels = .ok b' ↔
      (∀ a ∈ b.accesses, a.Expandable streams labels) ∧
        b' = b.unrolled (streams.calls labels.startOf) := by
  simp only [Block.expand, bind_eq_ok, pure_eq_ok, Node.expandAll_eq_ok]
  constructor
  · intro hparts
    rcases hparts with ⟨_, ⟨hexpandable, rfl⟩, rfl⟩
    exact ⟨hexpandable, rfl⟩
  · intro hparts
    rcases hparts with ⟨hexpandable, rfl⟩
    exact ⟨_, ⟨hexpandable, rfl⟩, rfl⟩

end

/-!
# The trees of a context
-/

namespace Context

def built (c : Context) : PhaseTable (Block StreamAccess) :=
  c.roots.map Scope.block

def accesses (c : Context) : List StreamAccess :=
  c.built.toList.flatMap Block.accesses

def callsOf (c : Context) : StreamAccess → List Primitive :=
  c.streams.calls c.labels.startOf

def unrolled (c : Context) : PhaseTable (Block Empty) :=
  c.built.map (Block.unrolled c.callsOf)

theorem expandRoots_eq_ok {c : Context} {phases : PhaseTable (Block Empty)} :
    c.expandRoots = .ok phases ↔
      (∀ a ∈ c.accesses, a.Expandable c.streams c.labels) ∧ phases = c.unrolled := by
  simp only [expandRoots, PhaseTable.mapExcept, bind_eq_ok, pure_eq_ok, Block.expand_eq_ok,
    accesses, unrolled, callsOf, built, PhaseTable.map, PhaseTable.toList, List.flatMap_cons,
    List.flatMap_nil, List.append_nil, List.forall_mem_append]
  constructor
  · intro hparts
    rcases hparts with ⟨_, ⟨hpre, rfl⟩, _, ⟨hrun, rfl⟩, _, ⟨hpost, rfl⟩, rfl⟩
    exact ⟨⟨hpre, hrun, hpost⟩, rfl⟩
  · intro hparts
    rcases hparts with ⟨⟨hpre, hrun, hpost⟩, rfl⟩
    exact ⟨_, ⟨hpre, rfl⟩, _, ⟨hrun, rfl⟩, _, ⟨hpost, rfl⟩, rfl⟩

/-- A sealed template has the unrolled trees, the labels and the streams of its context. -/
theorem unrolled_of_seal {c : Context} {t : SealedTemplate} (h : c.seal = .ok t) :
    (∀ a ∈ c.accesses, a.Expandable c.streams c.labels) ∧ t.phases = c.unrolled ∧
      t.labels = c.labels ∧ t.streams = c.streams := by
  rcases seal_eq_ok.mp h with ⟨_, _, phases, bindings, hexpand, _, rfl⟩
  rcases expandRoots_eq_ok.mp hexpand with ⟨hexpandable, hphases⟩
  exact ⟨hexpandable, hphases, rfl, rfl⟩

end Context
end Stimulus
