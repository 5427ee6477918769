import Stimulus.Campaign.Template

/-!
# Batches

## Catalogues

Templates are listed explicitly.  A catalogue keeps its entries in the order of
registration; a later entry under the same name takes the place of the earlier.

## Runs

A batch builds every entry in a fresh context and hands it to the engine.  An
entry that fails is reported and skipped, and the others still run.
-/

namespace Stimulus

structure CatalogEntry (σ : Type) where
  name : String
  origin : String
  template : Template σ

abbrev Catalog (σ : Type) :=
  OrderedMap String (CatalogEntry σ)

namespace Catalog

variable {σ : Type}

def register (c : Catalog σ) (entry : CatalogEntry σ) : Catalog σ :=
  c.insert entry.name entry

def ofEntries (entries : List (CatalogEntry σ)) : Catalog σ :=
  entries.foldl register OrderedMap.empty

end Catalog

structure EngineFailure where
  message : String
  causes : List String := []
deriving DecidableEq

inductive Failure where
  | build (cause : Refusal)
  | engine (cause : EngineFailure)
deriving DecidableEq

namespace Failure

def message : Failure → String
  | build cause => "build failed: " ++ cause.message
  | engine cause => "engine failed: " ++ cause.message

/-- The chain of causes, from the nearest to the last. -/
def causes : Failure → List String
  | build cause => [cause.message, cause.cause]
  | engine cause => cause.message :: cause.causes

end Failure

/-- An engine consumes sealed templates and keeps a state of type `τ`. -/
abbrev Engine (τ : Type) :=
  τ → SealedTemplate → Except EngineFailure Unit × τ

structure FailedEntry where
  name : String
  origin : String
  error : Failure
deriving DecidableEq

structure Report where
  succeeded : List String := []
  failed : List FailedEntry := []
deriving DecidableEq

namespace Report

def allSucceeded (r : Report) : Bool :=
  r.failed.isEmpty

def total (r : Report) : Nat :=
  r.succeeded.length + r.failed.length

end Report

namespace Catalog

variable {σ τ : Type}

def processEntry (model : Model) (engine : Engine τ) (state : τ) (entry : CatalogEntry σ) :
    Except Failure Unit × τ :=
  match entry.template.build model with
  | .error cause => (.error (.build cause), state)
  | .ok template =>
      let (outcome, next) := engine state template
      (outcome.mapError .engine, next)

def record (report : Report) (entry : CatalogEntry σ) :
    Except Failure Unit → Report
  | .ok () => { report with succeeded := report.succeeded ++ [entry.name] }
  | .error cause =>
      { report with failed := report.failed ++ [⟨entry.name, entry.origin, cause⟩] }

def runEntries (model : Model) (engine : Engine τ) :
    List (CatalogEntry σ) → Report → τ → Report × τ
  | [], report, state => (report, state)
  | entry :: rest, report, state =>
      let (outcome, next) := processEntry model engine state entry
      runEntries model engine rest (record report entry outcome) next

def run (c : Catalog σ) (model : Model) (engine : Engine τ) (state : τ) : Report × τ :=
  runEntries model engine c.values {} state

end Catalog
end Stimulus
