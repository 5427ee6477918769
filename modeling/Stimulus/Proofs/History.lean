import Mathlib.Data.List.Induction
import Stimulus.Proofs.Steps

/-!
# Histories of a build

## Runs

What one step preserves, every run preserves.  The commands of a run may be
accepted or refused, in any mix.

## Accepted commands

Where a law speaks of a command that was accepted earlier, it names the commands
before it, so that the context in which it was issued is known.
-/

namespace Stimulus

namespace Context

/-!
# Changes of the innermost scope

Only the scopes and the roots see them.
-/

section Frame

variable (c : Context) (f : Scope → Scope)

@[simp]
theorem modifyTop_model : (c.modifyTop f).model = c.model := by
  unfold modifyTop
  split <;> rfl

@[simp]
theorem modifyTop_phase : (c.modifyTop f).phase = c.phase := by
  unfold modifyTop
  split <;> rfl

@[simp]
theorem modifyTop_requests : (c.modifyTop f).requests = c.requests := by
  unfold modifyTop
  split <;> rfl

@[simp]
theorem modifyTop_labels : (c.modifyTop f).labels = c.labels := by
  unfold modifyTop
  split <;> rfl

@[simp]
theorem modifyTop_data : (c.modifyTop f).data = c.data := by
  unfold modifyTop
  split <;> rfl

@[simp]
theorem modifyTop_registerPreparators :
    (c.modifyTop f).registerPreparators = c.registerPreparators := by
  unfold modifyTop
  split <;> rfl

@[simp]
theorem modifyTop_streamPreparators :
    (c.modifyTop f).streamPreparators = c.streamPreparators := by
  unfold modifyTop
  split <;> rfl

@[simp]
theorem modifyTop_streams : (c.modifyTop f).streams = c.streams := by
  unfold modifyTop
  split <;> rfl

end Frame

/-!
# Runs
-/

@[simp]
theorem run_nil (c : Context) : c.run [] = c :=
  rfl

theorem run_cons (c : Context) (command : Command) (rest : List Command) :
    c.run (command :: rest) = (c.perform command).2.run rest :=
  rfl

theorem run_concat (c : Context) (commands : List Command) (command : Command) :
    c.run (commands ++ [command]) = ((c.run commands).perform command).2 := by
  simp [run]

theorem run_append (c : Context) (commands later : List Command) :
    c.run (commands ++ later) = (c.run commands).run later := by
  simp [run]

/-- What every step preserves holds after a run. -/
theorem run_invariant {I : Context → Prop}
    (hstep : ∀ c command outcome next, I c → Step c command outcome next → I next)
    {c : Context} (hstart : I c) (commands : List Command) : I (c.run commands) := by
  induction commands generalizing c with
  | nil =>
      exact hstart
  | cons command rest ih =>
      rw [run_cons]
      exact ih (hstep _ _ _ _ hstart (c.perform_step command))

theorem model_of_step {c next : Context} {command : Command} {outcome : Except Refusal Reply}
    (h : Step c command outcome next) : next.model = c.model := by
  cases h <;> simp [push, access]

theorem run_model (c : Context) (commands : List Command) :
    (c.run commands).model = c.model :=
  run_invariant (I := fun next => next.model = c.model)
    (fun _ _ _ _ hbefore hstep => (model_of_step hstep).trans hbefore) rfl commands

/-!
# Accepted commands
-/

/-- Among `commands`, issued one after the other from `c`, the `command` that
follows `before` answers `reply`. -/
def Accepted (c : Context) (commands before : List Command) (command : Command)
    (reply : Reply) : Prop :=
  ∃ after, commands = before ++ command :: after ∧
    ((c.run before).perform command).1 = .ok reply

variable {c : Context} {commands before : List Command} {command : Command} {reply : Reply}

theorem Accepted.concat (h : c.Accepted commands before command reply) (last : Command) :
    c.Accepted (commands ++ [last]) before command reply := by
  rcases h with ⟨after, hcommands, hreply⟩
  refine ⟨after ++ [last], ?_, hreply⟩
  rw [hcommands]
  simp

theorem accepted_last (h : ((c.run commands).perform command).1 = .ok reply) :
    c.Accepted (commands ++ [command]) commands command reply :=
  ⟨[], rfl, h⟩

theorem Accepted.lasting {P : Context → Prop}
    (h : c.Accepted commands before command reply)
    (hcommand : ∀ next, Step (c.run before) command (.ok reply) next → P next)
    (hstep : ∀ c command outcome next, P c → Step c command outcome next → P next) :
    P (c.run commands) := by
  rcases h with ⟨after, hcommands, hreply⟩
  have hperformed := (c.run before).perform_step command
  rw [hreply] at hperformed
  rw [hcommands, run_append, run_cons]
  exact run_invariant hstep (hcommand _ hperformed) after

theorem step_last (c : Context) (before : List Command) (command : Command) :
    Step (c.run before) command ((c.run before).perform command).1
      (c.run (before ++ [command])) := by
  rw [run_concat]
  exact (c.run before).perform_step command

theorem exists_accepted {P : Context → Prop} {R : List Command → Command → Reply → Prop}
    (hstep : ∀ before command outcome,
      Step (c.run before) command outcome (c.run (before ++ [command])) →
      P (c.run (before ++ [command])) →
      P (c.run before) ∨ ∃ reply, outcome = .ok reply ∧ R before command reply)
    (hstart : ¬ P c) (h : P (c.run commands)) :
    ∃ before command reply, c.Accepted commands before command reply ∧ R before command reply := by
  induction commands using List.reverseRecOn with
  | nil =>
      exact absurd h hstart
  | append_singleton before command ih =>
      rcases hstep before command _ (step_last c before command) h with hold | ⟨reply, hreply, hnew⟩
      · rcases ih hold with ⟨earlier, command', reply, haccepted, hearlier⟩
        exact ⟨earlier, command', reply, haccepted.concat command, hearlier⟩
      · exact ⟨before, command, reply, accepted_last hreply, hnew⟩

/-!
# Label references
-/

theorem requests_of_step {c next : Context} {command : Command}
    {outcome : Except Refusal Reply} (h : Step c command outcome next) :
    next.requests = c.requests ∨
      ∃ label, command = .lazy label ∧
        outcome = .ok (.argument (.placeholder (.lazy c.requests.length))) ∧
        next.requests = c.requests ++ [⟨label, c.top.head.id⟩] := by
  cases h with
  | lazyIssued =>
      exact Or.inr ⟨_, rfl, rfl, rfl⟩
  | _ =>
      exact Or.inl (by simp [push, access])

theorem requests_of_lazy {c next : Context} {label : String} {reply : Reply}
    (h : Step c (.lazy label) (.ok reply) next) :
    reply = .argument (.placeholder (.lazy c.requests.length)) ∧
      next.requests = c.requests ++ [⟨label, c.top.head.id⟩] := by
  cases h with
  | answered hcommand => cases hcommand
  | lazyIssued => exact ⟨rfl, rfl⟩
  | placed hleaf => cases hleaf
  | streamAccessed hcommand _ => cases hcommand

/-- The reference to `label` from `origin` is the lazy placeholder `index` of the run. -/
def IssuesLazy (c : Context) (commands : List Command) (index : Nat) (label : String)
    (origin : BlockId) : Prop :=
  ∃ before, c.Accepted commands before (.lazy label) (.argument (.placeholder (.lazy index))) ∧
    (c.run before).top.head.id = origin

theorem issuesLazy_iff (hstart : c.requests = []) {index : Nat} {label : String}
    {origin : BlockId} :
    c.IssuesLazy commands index label origin ↔
      (c.run commands).requests[index]? = some ⟨label, origin⟩ := by
  constructor
  · intro hparts
    rcases hparts with ⟨before, haccepted, rfl⟩
    apply haccepted.lasting
      (P := fun next => next.requests[index]? = some ⟨label, (c.run before).top.head.id⟩)
    · intro next hstep
      rcases requests_of_lazy hstep with ⟨hreply, happend⟩
      cases hreply
      rw [happend]
      exact List.getElem?_concat_length
    · intro earlier command outcome next hrequest hstep
      rcases requests_of_step hstep with hsame | ⟨_, _, _, happend⟩
      · rw [hsame]
        exact hrequest
      · rw [happend, List.getElem?_append_left]
        · exact hrequest
        · exact (List.getElem?_eq_some_iff.mp hrequest).choose
  · intro h
    have hissued := exists_accepted
      (P := fun next => next.requests[index]? = some ⟨label, origin⟩)
      (R := fun before command reply => command = .lazy label ∧
        reply = .argument (.placeholder (.lazy index)) ∧ (c.run before).top.head.id = origin)
      ?_ ?_ h
    · rcases hissued with ⟨before, _, _, haccepted, rfl, rfl, horigin⟩
      exact ⟨before, haccepted, horigin⟩
    · intro before command outcome hstep hnext
      rcases requests_of_step hstep with hsame | ⟨other, hcommand, hreply, happend⟩
      · rw [hsame] at hnext
        exact Or.inl hnext
      · rw [happend, List.getElem?_append] at hnext
        split at hnext
        · exact Or.inl hnext
        · rcases List.getElem?_eq_some_iff.mp hnext with ⟨hbound, hvalue⟩
          have hindex : index = (c.run before).requests.length := by
            simp at hbound
            omega
          simp only [List.getElem_singleton, LabelRequest.mk.injEq] at hvalue
          refine Or.inr ⟨_, hreply, ?_, ?_, hvalue.right⟩
          · rw [hcommand, hvalue.left]
          · rw [hindex]
    · rw [hstart]
      simp

end Context
end Stimulus
