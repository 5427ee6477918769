import Stimulus.Proofs.History

/-!
# Scopes of a build

## The innermost scope

Most commands change the innermost scope and no other.  The lemmas here say which
scope that is and what stands there afterwards.

## Heads

The roots keep the heads that they start with, and no block that a user opens is
the root of the template.
-/

namespace Stimulus

theorem Phase.index_inj {p q : Phase} : p.index = q.index ↔ p = q := by
  cases p <;> cases q <;> simp [index]

theorem Phase.ne_post_of_lt {p q : Phase} (h : p.index < q.index) : p ≠ .post := by
  intro hpost
  rw [hpost] at h
  cases q with
  | pre | run | post =>
      simp [index] at h

namespace PhaseTable

variable {α β : Type}

theorem get_modify (t : PhaseTable α) (p q : Phase) (f : α → α) :
    (t.modify p f).get q = if p = q then f (t.get q) else t.get q := by
  cases p <;> cases q <;> rfl

@[simp]
theorem get_map (t : PhaseTable α) (f : α → β) (p : Phase) :
    (t.map f).get p = f (t.get p) := by
  cases p <;> rfl

theorem toList_eq (t : PhaseTable α) : t.toList = Phase.all.map t.get :=
  rfl

theorem mem_toList {t : PhaseTable α} {a : α} : a ∈ t.toList ↔ ∃ p, t.get p = a := by
  rw [toList_eq, List.mem_map]
  constructor
  · intro hparts
    rcases hparts with ⟨p, _, hp⟩
    exact ⟨p, hp⟩
  · intro hparts
    rcases hparts with ⟨p, hp⟩
    refine ⟨p, ?_, hp⟩
    cases p <;> simp [Phase.all]

end PhaseTable

theorem Scope.constrain_eq_ok {s s' : Scope} {model : Model} {a : Allocation} :
    s.constrain model a = .ok s' ↔
      (model.find? .mode a.resourceClass).isSome = true ∧
        (∀ other ∈ s.head.allocations, other.covers a.resourceClass = false) ∧
        s' = { s with head := { s.head with allocations := s.head.allocations ++ [a] } } := by
  unfold constrain
  cases hmode : model.find? .mode a.resourceClass with
  | none =>
      simp
  | some entry =>
      by_cases hcovered : (s.head.allocations.any fun other => other.covers a.resourceClass) = true
      · simp only [hcovered]
        simp only [List.any_eq_true] at hcovered
        rcases hcovered with ⟨other, hother, hcovers⟩
        constructor
        · intro h
          cases h
        · intro h
          rw [h.right.left other hother] at hcovers
          cases hcovers
      · rw [Bool.not_eq_true] at hcovered
        simp only [hcovered]
        rw [List.any_eq_false] at hcovered
        constructor
        · intro h
          cases h
          refine ⟨rfl, ?_, rfl⟩
          intro other hother
          simpa using hcovered other hother
        · intro h
          rw [h.right.right]
          rfl

namespace Context

/-!
# The innermost scope
-/

section Top

variable {c : Context} {f : Scope → Scope} {s : Scope} {rest : List Scope}

theorem top_nil (h : c.scopes = []) : c.top = c.roots.get c.phase := by
  unfold top
  rw [h]

theorem top_cons (h : c.scopes = s :: rest) : c.top = s := by
  unfold top
  rw [h]

theorem modifyTop_nil (h : c.scopes = []) :
    c.modifyTop f = { c with roots := c.roots.modify c.phase f } := by
  unfold modifyTop
  rw [h]

theorem modifyTop_cons (h : c.scopes = s :: rest) :
    c.modifyTop f = { c with scopes := f s :: rest } := by
  unfold modifyTop
  rw [h]

theorem modifyTop_modifyTop (c : Context) (f g : Scope → Scope) :
    (c.modifyTop f).modifyTop g = c.modifyTop fun s => g (f s) := by
  cases hscopes : c.scopes with
  | nil =>
      have hnext : (c.modifyTop f).scopes = [] := by
        rw [modifyTop_nil hscopes]
        exact hscopes
      rw [modifyTop_nil hnext, modifyTop_nil hscopes, modifyTop_nil hscopes]
      cases hphase : c.phase with
      | pre | run | post =>
          rfl
  | cons s rest =>
      have hnext : (c.modifyTop f).scopes = f s :: rest := by
        rw [modifyTop_cons hscopes]
      rw [modifyTop_cons hnext, modifyTop_cons hscopes, modifyTop_cons hscopes]

end Top

/-!
# Heads
-/

/-- Where the scopes of a build stand: the roots at their places, and no block at the
root of the template. -/
structure Rooted (c : Context) : Prop where
  roots : ∀ p, (c.roots.get p).head = (Scope.phaseRoot p).head
  scopes : ∀ s ∈ c.scopes, s.head.id ≠ .root

namespace Rooted

variable {c : Context}

theorem start (name : String) (model : Model) (options : Options) (comments : CommentTokens) :
    Rooted (Context.start name model options comments) where
  roots p := by
    cases p <;> rfl
  scopes s hs := by
    cases hs

theorem top (h : Rooted c) : c.top.head.id ≠ .root := by
  cases hscopes : c.scopes with
  | nil =>
      rw [top_nil hscopes, h.roots]
      simp [Scope.phaseRoot, BlockId.root, BlockId.child]
  | cons s rest =>
      rw [top_cons hscopes]
      exact h.scopes s (by simp [hscopes])

theorem modifyTop (h : Rooted c) {f : Scope → Scope} (hf : (f c.top).head = c.top.head) :
    Rooted (c.modifyTop f) := by
  cases hscopes : c.scopes with
  | nil =>
      rw [top_nil hscopes] at hf
      rw [modifyTop_nil hscopes]
      refine ⟨?_, h.scopes⟩
      intro p
      rw [PhaseTable.get_modify]
      by_cases hp : c.phase = p
      · rw [if_pos hp, ← hp, hf]
        exact h.roots c.phase
      · rw [if_neg hp]
        exact h.roots p
  | cons s rest =>
      rw [top_cons hscopes] at hf
      rw [modifyTop_cons hscopes]
      refine ⟨h.roots, ?_⟩
      intro s' hs'
      rcases List.mem_cons.mp hs' with hsame | hrest
      · rw [hsame, hf]
        exact h.scopes s (by simp [hscopes])
      · exact h.scopes s' (by simp [hscopes, hrest])

theorem replace (h : Rooted c) {s s' : Scope} {rest : List Scope}
    (hscopes : c.scopes = s :: rest) (hid : s'.head.id = s.head.id) :
    Rooted { c with scopes := s' :: rest } where
  roots := h.roots
  scopes other hother := by
    rcases List.mem_cons.mp hother with hsame | hrest
    · rw [hsame, hid]
      exact h.scopes s (by simp [hscopes])
    · exact h.scopes other (by simp [hscopes, hrest])

theorem pop (h : Rooted c) {s : Scope} {rest : List Scope} (hscopes : c.scopes = s :: rest) :
    Rooted { c with scopes := rest } where
  roots := h.roots
  scopes other hother := h.scopes other (by simp [hscopes, hother])

theorem step {next : Context} {command : Command} {outcome : Except Refusal Reply}
    (h : Rooted c) (hstep : Step c command outcome next) : Rooted next := by
  cases hstep with
  | refused => exact h
  | dropped hscopes => exact h.pop hscopes
  | answered _ => exact h
  | advanced _ hscopes _ => exact ⟨h.roots, h.scopes⟩
  | @opened kind requested =>
      have hreserved : Rooted (c.modifyTop Scope.reserve) := h.modifyTop rfl
      refine ⟨hreserved.roots, ?_⟩
      intro s hs
      rcases List.mem_cons.mp hs with hsame | hrest
      · rw [hsame]
        simp [Scope.nested, Scope.nextId, BlockId.child, BlockId.root]
      · exact hreserved.scopes s hrest
  | closed hscopes _ _ => exact (h.pop hscopes).modifyTop rfl
  | covered hscopes _ => exact h.replace hscopes rfl
  | unknownIssued => exact ⟨h.roots, h.scopes⟩
  | lazyIssued => exact ⟨h.roots, h.scopes⟩
  | called _ => exact h.modifyTop rfl
  | attached _ _ => exact h.modifyTop rfl
  | @labelled name labels _ =>
      have hlabels : Rooted { c with labels } := ⟨h.roots, h.scopes⟩
      exact hlabels.modifyTop rfl
  | placed _ => exact h.modifyTop rfl
  | constraintOpened hscopes _ _ => exact h.replace hscopes rfl
  | constraintClosed hscopes _ => exact h.replace hscopes rfl
  | constrained hscopes _ _ hscope =>
      rcases Scope.constrain_eq_ok.mp hscope with ⟨_, _, rfl⟩
      exact h.replace hscopes rfl
  | streamPrepared _ => exact ⟨h.roots, h.scopes⟩
  | registerPrepared _ => exact ⟨h.roots, h.scopes⟩
  | @streamBound label data index length stream streams _ =>
      have hstreams : Rooted { c with streams } := ⟨h.roots, h.scopes⟩
      exact hstreams.modifyTop rfl
  | streamAccessed _ _ => exact h.modifyTop rfl
  | dataPerformed _ _ => exact ⟨h.roots, h.scopes⟩
  | dataLabelled _ _ => exact ⟨h.roots, h.scopes⟩
  | optionSet _ => exact ⟨h.roots, h.scopes⟩

end Rooted

theorem run_rooted {c : Context} (h : Rooted c) (commands : List Command) :
    Rooted (c.run commands) :=
  run_invariant (fun _ _ _ _ hbefore hstep => hbefore.step hstep) h commands

end Context
end Stimulus
