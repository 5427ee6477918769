/-!
# Phases

## The three parts of a template

Every template is built in the phases `pre`, `run` and `post`, in this order.
-/

namespace Stimulus

inductive Phase where
  | pre
  | run
  | post
deriving DecidableEq

namespace Phase

def all : List Phase :=
  [pre, run, post]

def name : Phase → String
  | pre => "pre"
  | run => "run"
  | post => "post"

def index : Phase → Nat
  | pre => 0
  | run => 1
  | post => 2

end Phase

structure PhaseTable (α : Type) where
  pre : α
  run : α
  post : α

namespace PhaseTable

variable {α β : Type}

def get (t : PhaseTable α) : Phase → α
  | .pre => t.pre
  | .run => t.run
  | .post => t.post

def modify (t : PhaseTable α) (p : Phase) (f : α → α) : PhaseTable α :=
  match p with
  | .pre => { t with pre := f t.pre }
  | .run => { t with run := f t.run }
  | .post => { t with post := f t.post }

def map (f : α → β) (t : PhaseTable α) : PhaseTable β :=
  ⟨f t.pre, f t.run, f t.post⟩

def ofFn (f : Phase → α) : PhaseTable α :=
  ⟨f .pre, f .run, f .post⟩

def toList (t : PhaseTable α) : List α :=
  [t.pre, t.run, t.post]

def mapExcept {ε : Type} (f : α → Except ε β) (t : PhaseTable α) :
    Except ε (PhaseTable β) := do
  let pre ← f t.pre
  let run ← f t.run
  let post ← f t.post
  return ⟨pre, run, post⟩

end PhaseTable
end Stimulus
