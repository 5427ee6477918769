import Mathlib.Data.List.Lex
import Stimulus.Proofs.BlockDistance
import Stimulus.Proofs.BlockOrder

/-!
# The block tree as a metric space

## Distances and depths

Walks can be joined and turned around, so that distances satisfy the laws of a metric.
The depth of a block is its distance from the root, and what encloses a block are the
blocks that a shortest walk from the root to it passes.

## Intervals

In the order of identities the blocks that a block encloses stand together, and it is
the first of them.
-/

namespace Stimulus
namespace BlockId

variable {a b d : BlockId}

/-!
# Metric laws
-/

namespace Walk

variable {n : Nat}

theorem eq_of_zero (h : Walk 0 a b) : a = b := by
  cases h with
  | stay => rfl

theorem reverse (h : Walk n a b) : Walk n b a := by
  induction h with
  | stay b => exact .stay b
  | @down n a b index _ ih =>
      have hback : Walk (1 + n) (b.child index) a := (Walk.up (.stay (b.child index))).trans ih
      rw [Nat.add_comm] at hback
      exact hback
  | @up n a b index _ ih =>
      have hback : Walk (1 + n) b a := (Walk.down index (.stay b)).trans ih
      rw [Nat.add_comm] at hback
      exact hback

end Walk

theorem distance_eq_zero : a.distance b = 0 ↔ a = b := by
  constructor
  · intro h
    have hwalk := walk_distance a b
    rw [h] at hwalk
    exact hwalk.eq_of_zero
  · intro h
    rw [h, distance_self]

theorem distance_comm (a b : BlockId) : a.distance b = b.distance a :=
  Nat.le_antisymm (distance_le_of_walk (walk_distance b a).reverse)
    (distance_le_of_walk (walk_distance a b).reverse)

theorem distance_triangle (a b d : BlockId) : a.distance d ≤ a.distance b + b.distance d :=
  distance_le_of_walk ((walk_distance a b).trans (walk_distance b d))

/-!
# Enclosure by depths
-/

theorem distance_root (b : BlockId) : root.distance b = b.depth :=
  apart_nil_left b.path

theorem depth_le (a b : BlockId) : b.depth ≤ a.depth + a.distance b := by
  rw [← distance_root a, ← distance_root b]
  exact distance_triangle root a b

theorem distance_le_of_encloses (h : a.encloses b = true) : a.depth + a.distance b ≤ b.depth := by
  rcases encloses_iff.mp h with ⟨rest, hrest⟩
  have hwalk := Walk.descend a rest
  rw [hrest] at hwalk
  have hdistance : a.distance b ≤ rest.length := distance_le_of_walk hwalk
  have hdepth : b.depth = a.depth + rest.length := by
    rw [depth, ← hrest, List.length_append]
    rfl
  omega

theorem encloses_of_depth (h : a.depth + a.distance b = b.depth) : a.encloses b = true := by
  rcases exists_common a.path b.path with ⟨common, front, back, ha, hb, hapart⟩
  have hdistance : a.distance b = front.length + back.length := hapart
  have hadepth : a.depth = common.length + front.length := by
    rw [depth, ha, List.length_append]
  have hbdepth : b.depth = common.length + back.length := by
    rw [depth, hb, List.length_append]
  have hfront : front = [] := List.eq_nil_of_length_eq_zero (by omega)
  rw [hfront, List.append_nil] at ha
  rw [encloses_iff, ha, hb]
  exact List.prefix_append common back

theorem encloses_iff_depth : a.encloses b = true ↔ a.depth + a.distance b = b.depth := by
  constructor
  · intro h
    exact Nat.le_antisymm (distance_le_of_encloses h) (depth_le a b)
  · exact encloses_of_depth

theorem encloses_antisymm (h : a.encloses b = true) (h' : b.encloses a = true) : a = b := by
  rw [encloses_iff_depth] at h h'
  rw [← distance_eq_zero]
  omega

theorem isPartialOrder_encloses : IsPartialOrder BlockId fun a b => a.encloses b = true where
  refl := encloses_refl
  trans _ _ _ := encloses_trans
  antisymm _ _ := encloses_antisymm

/-!
# Intervals of the order
-/

theorem le_iff : a ≤ b ↔ a.path ≤ b.path := by
  change ¬ b.path < a.path ↔ a.path ≤ b.path
  exact not_lt

theorem isLinearOrder : IsLinearOrder BlockId (· ≤ ·) where
  refl a := le_iff.mpr (le_refl a.path)
  trans _ _ _ h h' := le_iff.mpr ((le_iff.mp h).trans (le_iff.mp h'))
  antisymm a b h h' := by
    rcases a with ⟨p⟩
    rcases b with ⟨q⟩
    exact congrArg BlockId.mk (le_antisymm (le_iff.mp h) (le_iff.mp h'))
  total a b := by
    rw [le_iff, le_iff]
    exact le_total a.path b.path

theorem le_of_encloses (h : a.encloses b = true) : a ≤ b :=
  (encloses_iff.mp h).le

theorem prefix_of_between {p q r : List Nat} (h : p <+: r) (hpq : ¬ q < p) (hqr : ¬ r < q) :
    p <+: q := by
  induction p generalizing q r with
  | nil =>
      exact List.nil_prefix
  | cons i p ih =>
      rcases h with ⟨rest, rfl⟩
      cases q with
      | nil =>
          exact absurd (List.nil_lt_cons i p) hpq
      | cons j q =>
          rw [List.cons_lt_cons_iff, not_or, not_and] at hpq
          rw [List.cons_append, List.cons_lt_cons_iff, not_or, not_and] at hqr
          have hindex : j = i := by
            omega
          rw [hindex, List.prefix_cons_inj]
          exact ih (List.prefix_append p rest) (hpq.right hindex) (hqr.right hindex.symm)

theorem encloses_of_between (h : a.encloses d = true) (hab : a ≤ b) (hbd : b ≤ d) :
    a.encloses b = true :=
  encloses_iff.mpr (prefix_of_between (encloses_iff.mp h) hab hbd)

/-- Distance, enclosure and order of blocks are those of one tree. -/
structure MeasuresTree : Prop where
  distance_eq_zero : ∀ a b : BlockId, a.distance b = 0 ↔ a = b
  distance_comm : ∀ a b : BlockId, a.distance b = b.distance a
  distance_triangle : ∀ a b d : BlockId, a.distance d ≤ a.distance b + b.distance d
  partialOrder : IsPartialOrder BlockId fun a b => a.encloses b = true
  encloses_iff : ∀ a b : BlockId, a.encloses b = true ↔ a.depth + a.distance b = b.depth
  linearOrder : IsLinearOrder BlockId (· ≤ ·)
  le : ∀ a b : BlockId, a.encloses b = true → a ≤ b
  between : ∀ a b d : BlockId, a.encloses d = true → a ≤ b → b ≤ d → a.encloses b = true

/-- Identities measure the block tree, and their order keeps what a block encloses together. -/
theorem measuresTree : MeasuresTree where
  distance_eq_zero _ _ := distance_eq_zero
  distance_comm := distance_comm
  distance_triangle := distance_triangle
  partialOrder := isPartialOrder_encloses
  encloses_iff _ _ := encloses_iff_depth
  linearOrder := isLinearOrder
  le _ _ := le_of_encloses
  between _ _ _ := encloses_of_between

end BlockId
end Stimulus
