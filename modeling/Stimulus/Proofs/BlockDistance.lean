import Stimulus.Tree.BlockId
import Mathlib.Data.List.Induction
import Mathlib.Order.Bounds.Basic

/-!
# Distances in the block tree

## Walks

A walk goes along the edges of the block tree: from a block to one of its children, or
back.  The distance of two blocks is the length of the shortest walk between them.
-/

namespace Stimulus
namespace BlockId

/-- A walk of the given length from one block to another. -/
inductive Walk : Nat → BlockId → BlockId → Prop where
  | stay (b : BlockId) : Walk 0 b b
  | down {n : Nat} {a b : BlockId} (index : Nat) (h : Walk n a b) :
      Walk (n + 1) a (b.child index)
  | up {n : Nat} {a b : BlockId} {index : Nat} (h : Walk n a (b.child index)) :
      Walk (n + 1) a b

namespace Walk

variable {m n : Nat} {a b d : BlockId}

theorem trans (h : Walk m a b) (h' : Walk n b d) : Walk (m + n) a d := by
  induction h' with
  | stay => exact h
  | down index _ ih => exact .down index (ih h)
  | up _ ih => exact .up (ih h)

theorem descend (a : BlockId) (path : List Nat) : Walk path.length a ⟨a.path ++ path⟩ := by
  induction path using List.reverseRecOn with
  | nil =>
      rw [List.append_nil]
      exact .stay a
  | append_singleton front index ih =>
      rw [List.length_append, ← List.append_assoc]
      exact .down index ih

theorem climb (a : BlockId) (path : List Nat) : Walk path.length ⟨a.path ++ path⟩ a := by
  induction path generalizing a with
  | nil =>
      rw [List.append_nil]
      exact .stay a
  | cons index rest ih =>
      have hrest := ih (a.child index)
      rw [child, List.append_assoc, List.singleton_append] at hrest
      exact .up hrest

end Walk

/-!
# Neighbours
-/

def apart (p q : List Nat) : Nat :=
  (p.length - sharedLength p q) + (q.length - sharedLength p q)

theorem apart_cons (i : Nat) (p q : List Nat) : apart (i :: p) (i :: q) = apart p q := by
  unfold apart
  rw [sharedLength, if_pos rfl, List.length_cons, List.length_cons]
  omega

theorem apart_cons_of_ne {i j : Nat} (h : i ≠ j) (p q : List Nat) :
    apart (i :: p) (j :: q) = (p.length + 1) + (q.length + 1) := by
  unfold apart
  rw [sharedLength, if_neg h, List.length_cons, List.length_cons]
  rfl

theorem apart_nil_left (q : List Nat) : apart [] q = q.length := by
  unfold apart
  rw [sharedLength]
  · simp
  · intro _ _ _ _ h
    cases h

theorem apart_nil_right (p : List Nat) : apart p [] = p.length := by
  unfold apart
  rw [sharedLength]
  · simp
  · intro _ _ _ _ _ h
    cases h

theorem apart_concat (index : Nat) (p q : List Nat) :
    apart p (q ++ [index]) = apart p q + 1 ∨ apart p q = apart p (q ++ [index]) + 1 := by
  induction q generalizing p with
  | nil =>
      cases p with
      | nil =>
          exact Or.inl rfl
      | cons i p =>
          rw [List.nil_append, apart_nil_right, List.length_cons]
          by_cases h : i = index
          · rw [h, apart_cons, apart_nil_right]
            exact Or.inr rfl
          · rw [apart_cons_of_ne h]
            exact Or.inl rfl
  | cons j q ih =>
      rw [List.cons_append]
      cases p with
      | nil =>
          rw [apart_nil_left, apart_nil_left]
          exact Or.inl (by simp)
      | cons i p =>
          by_cases h : i = j
          · rw [h, apart_cons, apart_cons]
            exact ih p
          · rw [apart_cons_of_ne h, apart_cons_of_ne h]
            exact Or.inl (by simp; omega)

theorem distance_child (a b : BlockId) (index : Nat) :
    a.distance (b.child index) = a.distance b + 1 ∨
      a.distance b = a.distance (b.child index) + 1 :=
  apart_concat index a.path b.path

theorem distance_self (b : BlockId) : b.distance b = 0 := by
  change apart b.path b.path = 0
  induction b.path with
  | nil => rfl
  | cons i p ih => rw [apart_cons, ih]

/-!
# Shortest walks
-/

theorem distance_le_of_walk {n : Nat} {a b : BlockId} (h : Walk n a b) : a.distance b ≤ n := by
  induction h with
  | stay b =>
      rw [distance_self]
  | @down n a b index _ ih =>
      rcases distance_child a b index with hfarther | hnearer
      · omega
      · omega
  | @up n a b index _ ih =>
      rcases distance_child a b index with hfarther | hnearer
      · omega
      · omega

theorem exists_common (p q : List Nat) :
    ∃ common front back, p = common ++ front ∧ q = common ++ back ∧
      apart p q = front.length + back.length := by
  induction p generalizing q with
  | nil =>
      exact ⟨[], [], q, rfl, rfl, by rw [apart_nil_left]; simp⟩
  | cons i p ih =>
      cases q with
      | nil =>
          exact ⟨[], i :: p, [], rfl, rfl, apart_nil_right _⟩
      | cons j q =>
          by_cases h : i = j
          · rcases ih q with ⟨common, front, back, hp, hq, hapart⟩
            refine ⟨j :: common, front, back, ?_, ?_, ?_⟩
            · rw [h, hp]
              rfl
            · rw [hq]
              rfl
            · rw [h, apart_cons]
              exact hapart
          · exact ⟨[], i :: p, j :: q, rfl, rfl, apart_cons_of_ne h p q⟩

theorem walk_distance (a b : BlockId) : Walk (a.distance b) a b := by
  rcases exists_common a.path b.path with ⟨common, front, back, ha, hb, hapart⟩
  have hclimb := Walk.climb ⟨common⟩ front
  have hdescend := Walk.descend ⟨common⟩ back
  rw [← ha] at hclimb
  rw [← hb] at hdescend
  change Walk (apart a.path b.path) a b
  rw [hapart]
  exact hclimb.trans hdescend

/-- The distance of two blocks is the least number of edges on a walk between them. -/
theorem isLeast_distance (a b : BlockId) : IsLeast {n | Walk n a b} (a.distance b) :=
  ⟨walk_distance a b, fun _ h => distance_le_of_walk h⟩

end BlockId
end Stimulus
