import Stimulus.Refusal

/-!
# Calls that change a state in place

## Order of checks and changes

A call on a state is a sequence of checks and changes.  A check that fails ends the
call, and nothing is undone: the changes made before the check stay.
-/

namespace Stimulus

/-- A call on a state of type `σ`, which a check may end. -/
abbrev InPlace (σ : Type) : Type → Type :=
  ExceptT Refusal (StateM σ)

namespace InPlace

variable {σ τ α β : Type}

/-- The outcome of a call, and the state that it leaves. -/
def call (m : InPlace σ α) (s : σ) : Except Refusal α × σ :=
  Id.run (m.run.run s)

def check (result : Except Refusal α) : InPlace σ α :=
  ExceptT.mk (pure result)

def ask (result : σ → Except Refusal α) : InPlace σ α := do
  check (result (← get))

def refuseIf (p : Prop) [Decidable p] (cause : Refusal) : InPlace σ Unit :=
  check (if p then .error cause else .ok ())

def refuseUnless (p : Prop) [Decidable p] (cause : Refusal) : InPlace σ Unit :=
  check (if p then .ok () else .error cause)

def onPart (get : τ → σ) (put : σ → τ → τ) (m : InPlace σ α) : InPlace τ α :=
  ExceptT.mk do
    let t ← StateT.get
    let (outcome, s) := m.call (get t)
    StateT.set (put s t)
    return outcome

/-!
# Running a call
-/

@[simp]
theorem call_get_bind (f : σ → InPlace σ α) (s : σ) :
    ((get : InPlace σ σ) >>= f).call s = (f s).call s :=
  rfl

@[simp]
theorem call_modify_bind (g : σ → σ) (f : Unit → InPlace σ α) (s : σ) :
    ((modify g : InPlace σ Unit) >>= f).call s = (f ()).call (g s) :=
  rfl

theorem call_bind (m : InPlace σ α) (f : α → InPlace σ β) (s : σ) :
    (m >>= f).call s =
      match m.call s with
      | (.ok a, s') => (f a).call s'
      | (.error cause, s') => (.error cause, s') := by
  change ExceptT.bindCont f (m.call s).1 (m.call s).2 = _
  rcases m.call s with ⟨_ | _, s'⟩
  · rfl
  · rfl

end InPlace
end Stimulus
