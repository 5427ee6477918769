import Stimulus.Sealed.Basic

/-!
# Templates

## The life of a template

A template only describes what to build: it may adjust the options, and it has
one hook per phase.  The hooks run in build order on a fresh context, which is
sealed at the end.  The parameter `σ` is what a template itself carries from one
hook to the next.
-/

namespace Stimulus

abbrev Hook (σ : Type) :=
  σ → Context → Except Refusal (σ × Context)

def Hook.skip {σ : Type} : Hook σ :=
  fun notes c => .ok (notes, c)

structure Template (σ : Type) where
  name : String
  notes : σ
  configure : Options → Except Refusal Options := .ok
  pre : Hook σ := Hook.skip
  run : Hook σ := Hook.skip
  post : Hook σ := Hook.skip

namespace Template

variable {σ : Type}

def hook (t : Template σ) : Phase → Hook σ
  | .pre => t.pre
  | .run => t.run
  | .post => t.post

def runPhases (t : Template σ) : List Phase → Hook σ
  | [] => Hook.skip
  | phase :: rest => fun notes c => do
      let c ← c.advanceTo phase
      let (notes, c) ← t.hook phase notes c
      t.runPhases rest notes c

def build (t : Template σ) (model : Model) : Except Refusal SealedTemplate := do
  let options ← t.configure {}
  let (_, c) ← t.runPhases Phase.all t.notes (Context.start t.name model options {})
  c.seal

end Template
end Stimulus
