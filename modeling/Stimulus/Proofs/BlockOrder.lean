import Mathlib.Data.List.Basic
import Stimulus.Tree.Basic

/-!
# Order of blocks

## Identities

Enclosure is the relation of initial segments of paths.  What lies below the smaller
of two siblings comes before what lies below the greater one.

## Indexed trees

In an indexed tree the identity of a nested block is that of the block around it,
extended by one index, and the indices grow from child to child.  The blocks of such
a tree stand in the order of their identities, so that no two share one.
-/

namespace Stimulus

/-!
# Enclosure
-/

namespace BlockId

variable {a b d e : BlockId} {i j : Nat}

theorem encloses_iff : a.encloses b = true ↔ a.path <+: b.path :=
  List.isPrefixOf_iff_prefix

theorem encloses_refl (a : BlockId) : a.encloses a = true :=
  encloses_iff.mpr (List.prefix_refl _)

theorem encloses_trans (hab : a.encloses b = true) (hbd : b.encloses d = true) :
    a.encloses d = true :=
  encloses_iff.mpr ((encloses_iff.mp hab).trans (encloses_iff.mp hbd))

theorem encloses_child (a : BlockId) (i : Nat) : a.encloses (a.child i) = true :=
  encloses_iff.mpr (List.prefix_append _ _)

theorem child_inj : a.child i = a.child j ↔ i = j := by
  simp [child]

theorem encloses_child_iff :
    (a.child i).encloses d = true ↔ ∃ rest, d.path = a.path ++ i :: rest := by
  rw [encloses_iff]
  constructor
  · intro h
    rcases h with ⟨rest, hrest⟩
    refine ⟨rest, ?_⟩
    rw [← hrest]
    simp [child]
  · intro h
    rcases h with ⟨rest, hrest⟩
    refine ⟨rest, ?_⟩
    rw [hrest]
    simp [child]

theorem index_unique (hi : (a.child i).encloses d = true) (hj : (a.child j).encloses d = true) :
    i = j := by
  rcases encloses_child_iff.mp hi with ⟨rest, hrest⟩
  rcases encloses_child_iff.mp hj with ⟨other, hother⟩
  rw [hrest, List.append_cancel_left_eq] at hother
  exact (List.cons.inj hother).left

theorem encloses_child_cases (h : b.encloses (a.child i) = true) :
    b = a.child i ∨ b.encloses a = true := by
  rw [encloses_iff] at h ⊢
  rcases List.prefix_concat_iff.mp h with hsame | hshorter
  · left
    rcases b with ⟨path⟩
    exact congrArg BlockId.mk hsame
  · exact Or.inr hshorter

theorem lt_of_encloses_child (h : (a.child i).encloses d = true) : a < d := by
  rcases encloses_child_iff.mp h with ⟨rest, hrest⟩
  have hlt : a.path ++ [] < a.path ++ i :: rest :=
    List.append_left_lt (List.nil_lt_cons i rest)
  rw [List.append_nil, ← hrest] at hlt
  exact hlt

theorem lt_of_index_lt (hlt : i < j) (hd : (a.child i).encloses d = true)
    (he : (a.child j).encloses e = true) : d < e := by
  rcases encloses_child_iff.mp hd with ⟨front, hfront⟩
  rcases encloses_child_iff.mp he with ⟨back, hback⟩
  have hbranch : a.path ++ i :: front < a.path ++ j :: back :=
    List.append_left_lt (List.cons_lt_cons_iff.mpr (Or.inl hlt))
  rw [← hfront, ← hback] at hbranch
  exact hbranch

theorem ne_of_lt (h : a < b) : a ≠ b := by
  intro hsame
  rw [hsame] at h
  exact List.lt_irrefl b.path h

end BlockId

/-!
# Blocks inside a block
-/

namespace Block

variable {α : Type} {b d : Block α}

/-- Induction on the nesting of blocks. -/
@[elab_as_elim]
theorem nesting {motive : Block α → Prop} (step : ∀ b, (∀ d ∈ b.blocks, motive d) → motive b)
    (b : Block α) : motive b := by
  have hnodes : ∀ n : Node α, ∀ d, n.block? = some d → motive d := by
    intro n
    apply Node.rec (motive_1 := fun n => ∀ d, n.block? = some d → motive d)
      (motive_2 := fun children => ∀ d ∈ children.filterMap Node.block?, motive d)
    case block =>
      intro head children ih d hd
      cases hd
      exact step _ ih
    case nil =>
      intro d hd
      cases hd
    case cons =>
      intro n rest hn hrest d hd
      rw [List.filterMap_cons] at hd
      split at hd
      · exact hrest d hd
      · rename_i first hfirst
        rcases List.mem_cons.mp hd with rfl | hd
        · exact hn d hfirst
        · exact hrest d hd
    all_goals
      intro _ d hd
      cases hd
  exact hnodes b.toNode b rfl

theorem allBlocksOf_eq (children : List (Node α)) :
    Node.allBlocksOf children = (children.filterMap Node.block?).flatMap allBlocks := by
  induction children with
  | nil =>
      rfl
  | cons n rest ih =>
      rw [Node.allBlocksOf, ih]
      cases n with
      | block head children => rfl
      | _ => rfl

theorem allBlocks_eq (b : Block α) : b.allBlocks = b :: b.blocks.flatMap allBlocks := by
  rw [allBlocks, toNode, Node.allBlocks, allBlocksOf_eq]
  rfl

theorem mem_allBlocks : d ∈ b.allBlocks ↔ d = b ∨ ∃ e ∈ b.blocks, d ∈ e.allBlocks := by
  rw [allBlocks_eq, List.mem_cons, List.mem_flatMap]

theorem self_mem_allBlocks (b : Block α) : b ∈ b.allBlocks :=
  mem_allBlocks.mpr (Or.inl rfl)

/-!
# Indexed trees
-/

def Indexed (b : Block α) : Prop :=
  ∃ indices : List Nat, indices.Pairwise (· < ·) ∧
    (b.blocks.map fun d => d.head.id) = indices.map b.head.id.child

theorem Indexed.index (h : b.Indexed) (hd : d ∈ b.blocks) : ∃ i, d.head.id = b.head.id.child i := by
  rcases h with ⟨indices, _, hids⟩
  have hid : d.head.id ∈ indices.map b.head.id.child := by
    rw [← hids]
    exact List.mem_map_of_mem hd
  rcases List.mem_map.mp hid with ⟨i, _, hi⟩
  exact ⟨i, hi.symm⟩

theorem Indexed.pairwise (h : b.Indexed) :
    b.blocks.Pairwise fun d e =>
      ∃ i j, i < j ∧ d.head.id = b.head.id.child i ∧ e.head.id = b.head.id.child j := by
  rcases h with ⟨indices, hsorted, hids⟩
  have hpairs : (indices.map b.head.id.child).Pairwise fun d e =>
      ∃ i j, i < j ∧ d = b.head.id.child i ∧ e = b.head.id.child j := by
    rw [List.pairwise_map]
    exact hsorted.imp fun hlt => ⟨_, _, hlt, rfl, rfl⟩
  rw [← hids] at hpairs
  exact List.pairwise_map.mp hpairs

theorem encloses_of_mem (hindexed : ∀ e ∈ b.allBlocks, e.Indexed) (hd : d ∈ b.allBlocks) :
    b.head.id.encloses d.head.id = true := by
  induction b using nesting with
  | step b ih =>
      rcases mem_allBlocks.mp hd with rfl | ⟨e, he, hde⟩
      · exact BlockId.encloses_refl _
      · have hinner : ∀ e' ∈ e.allBlocks, e'.Indexed := by
          intro e' he'
          exact hindexed e' (mem_allBlocks.mpr (Or.inr ⟨e, he, he'⟩))
        have hencloses := ih e he hinner hde
        rcases (hindexed b b.self_mem_allBlocks).index he with ⟨i, hi⟩
        rw [hi] at hencloses
        exact BlockId.encloses_trans (BlockId.encloses_child _ i) hencloses

theorem pairwise_lt (hindexed : ∀ e ∈ b.allBlocks, e.Indexed) :
    b.allBlocks.Pairwise fun d e => d.head.id < e.head.id := by
  induction b using nesting with
  | step b ih =>
      have hself := hindexed b b.self_mem_allBlocks
      have hinner : ∀ e ∈ b.blocks, ∀ e' ∈ e.allBlocks, e'.Indexed := by
        intro e he e' he'
        exact hindexed e' (mem_allBlocks.mpr (Or.inr ⟨e, he, he'⟩))
      rw [allBlocks_eq, List.pairwise_cons, List.pairwise_flatMap]
      refine ⟨?_, fun e he => ih e he (hinner e he), ?_⟩
      · intro d hd
        rcases List.mem_flatMap.mp hd with ⟨e, he, hde⟩
        have hencloses := encloses_of_mem (hinner e he) hde
        rcases hself.index he with ⟨i, hi⟩
        rw [hi] at hencloses
        exact BlockId.lt_of_encloses_child hencloses
      · apply hself.pairwise.imp_of_mem
        intro e e' he he' hpair d hd d' hd'
        rcases hpair with ⟨i, j, hlt, hi, hj⟩
        have hencloses := encloses_of_mem (hinner e he) hd
        have hencloses' := encloses_of_mem (hinner e' he') hd'
        rw [hi] at hencloses
        rw [hj] at hencloses'
        exact BlockId.lt_of_index_lt hlt hencloses hencloses'

end Block
end Stimulus
