import Stimulus.Campaign.Batch
import Mathlib.Data.List.Nodup
import Mathlib.Data.List.Perm.Basic

/-!
# Batch runs

## One verdict per entry

A batch comes to a verdict on every entry of its catalogue, in order.  The report and the
state of the engine at the end are read off the verdicts.

## Isolation

The verdict on an entry depends on its template, on the model, and on the state that the
engine is in when the templates before it have been processed.  An entry that fails to
build never reaches the engine, so that it may be taken out of the catalogue, or put in,
and nothing else changes.
-/

namespace Stimulus

namespace Engine

variable {τ : Type}

def after (engine : Engine τ) (state : τ) (templates : List SealedTemplate) : τ :=
  templates.foldl (fun state template => (engine state template).2) state

def calls (engine : Engine τ) (state : τ) : List SealedTemplate → List (τ × SealedTemplate)
  | [] => []
  | template :: rest => (state, template) :: engine.calls (engine state template).2 rest

def traced (engine : Engine τ) : Engine (τ × List (τ × SealedTemplate)) :=
  fun (state, seen) template =>
    let (outcome, next) := engine state template
    (outcome, next, seen ++ [(state, template)])

end Engine

namespace Report

def append (first later : Report) : Report :=
  ⟨first.succeeded ++ later.succeeded, first.failed ++ later.failed⟩

instance : Append Report :=
  ⟨append⟩

theorem append_def (first later : Report) :
    first ++ later =
      ⟨first.succeeded ++ later.succeeded, first.failed ++ later.failed⟩ :=
  rfl

theorem append_assoc (first second third : Report) :
    first ++ second ++ third = first ++ (second ++ third) := by
  simp only [append_def, List.append_assoc]

end Report

namespace Catalog

variable {σ τ : Type} {model : Model} {engine : Engine τ}

def templates (model : Model) (entries : List (CatalogEntry σ)) : List SealedTemplate :=
  entries.filterMap fun entry => (entry.template.build model).toOption

/-!
# Verdicts
-/

structure Verdict (σ : Type) where
  entry : CatalogEntry σ
  outcome : Except Failure Unit

namespace Verdict

def passed (v : Verdict σ) : Bool :=
  match v.outcome with
  | .ok () => true
  | .error _ => false

def failure? (v : Verdict σ) : Option FailedEntry :=
  match v.outcome with
  | .ok () => none
  | .error cause => some ⟨v.entry.name, v.entry.origin, cause⟩

end Verdict

def verdicts (model : Model) (engine : Engine τ) :
    τ → List (CatalogEntry σ) → List (Verdict σ)
  | _, [] => []
  | state, entry :: rest =>
      let (outcome, next) := processEntry model engine state entry
      ⟨entry, outcome⟩ :: verdicts model engine next rest

def reportOf (vs : List (Verdict σ)) : Report where
  succeeded := (vs.filter Verdict.passed).map fun v => v.entry.name
  failed := vs.filterMap Verdict.failure?

/-!
# The state of the engine
-/

theorem templates_append (front back : List (CatalogEntry σ)) :
    templates model (front ++ back) = templates model front ++ templates model back :=
  List.filterMap_append

theorem templates_cons_of_build {entry : CatalogEntry σ} {rest : List (CatalogEntry σ)}
    {template : SealedTemplate} (h : entry.template.build model = .ok template) :
    templates model (entry :: rest) = template :: templates model rest :=
  List.filterMap_cons_some (congrArg Except.toOption h)

theorem templates_cons_of_fail {entry : CatalogEntry σ} {rest : List (CatalogEntry σ)}
    {cause : Refusal} (h : entry.template.build model = .error cause) :
    templates model (entry :: rest) = templates model rest :=
  List.filterMap_cons_none (congrArg Except.toOption h)

theorem processEntry_of_build {state : τ} {entry : CatalogEntry σ} {template : SealedTemplate}
    (h : entry.template.build model = .ok template) :
    processEntry model engine state entry =
      ((engine state template).1.mapError .engine, (engine state template).2) := by
  unfold processEntry
  rw [h]

theorem processEntry_of_fail {state : τ} {entry : CatalogEntry σ} {cause : Refusal}
    (h : entry.template.build model = .error cause) :
    processEntry model engine state entry = (.error (.build cause), state) := by
  unfold processEntry
  rw [h]

theorem after_processEntry (state : τ) (entry : CatalogEntry σ) (rest : List (CatalogEntry σ)) :
    engine.after (processEntry model engine state entry).2 (templates model rest) =
      engine.after state (templates model (entry :: rest)) := by
  cases hbuild : entry.template.build model with
  | error cause =>
      rw [processEntry_of_fail hbuild, templates_cons_of_fail hbuild]
  | ok template =>
      rw [processEntry_of_build hbuild, templates_cons_of_build hbuild]
      rfl

theorem verdicts_cons (state : τ) (entry : CatalogEntry σ) (rest : List (CatalogEntry σ)) :
    verdicts model engine state (entry :: rest) =
      ⟨entry, (processEntry model engine state entry).1⟩ ::
        verdicts model engine (processEntry model engine state entry).2 rest :=
  rfl

theorem verdicts_append (state : τ) (front back : List (CatalogEntry σ)) :
    verdicts model engine state (front ++ back) =
      verdicts model engine state front ++
        verdicts model engine (engine.after state (templates model front)) back := by
  induction front generalizing state with
  | nil =>
      rfl
  | cons entry rest ih =>
      rw [List.cons_append, verdicts_cons, verdicts_cons, ih, after_processEntry,
        List.cons_append]

theorem map_verdicts {α : Type} (f : CatalogEntry σ → α) (state : τ)
    (entries : List (CatalogEntry σ)) :
    ((verdicts model engine state entries).map fun v => f v.entry) = entries.map f := by
  induction entries generalizing state with
  | nil =>
      rfl
  | cons entry rest ih =>
      rw [verdicts_cons, List.map_cons, ih, List.map_cons]

/-!
# Reports
-/

theorem record_eq (report : Report) (v : Verdict σ) :
    record report v.entry v.outcome = report ++ reportOf [v] := by
  rcases v with ⟨entry, outcome⟩
  cases outcome with
  | ok _ =>
      simp [record, reportOf, Report.append_def, List.filter_cons, Verdict.passed,
        Verdict.failure?]
  | error cause =>
      simp [record, reportOf, Report.append_def, Verdict.passed, Verdict.failure?]

theorem reportOf_append (front back : List (Verdict σ)) :
    reportOf (front ++ back) = reportOf front ++ reportOf back := by
  simp only [reportOf, Report.append_def, List.filter_append, List.map_append,
    List.filterMap_append]

theorem runEntries_cons (entry : CatalogEntry σ) (rest : List (CatalogEntry σ))
    (report : Report) (state : τ) :
    runEntries model engine (entry :: rest) report state =
      runEntries model engine rest
        (record report entry (processEntry model engine state entry).1)
        (processEntry model engine state entry).2 :=
  rfl

theorem runEntries_eq (entries : List (CatalogEntry σ)) (report : Report) (state : τ) :
    runEntries model engine entries report state =
      (report ++ reportOf (verdicts model engine state entries),
        engine.after state (templates model entries)) := by
  induction entries generalizing report state with
  | nil =>
      simp [runEntries, verdicts, reportOf, templates, Engine.after, Report.append_def]
  | cons entry rest ih =>
      let v : Verdict σ := ⟨entry, (processEntry model engine state entry).1⟩
      have hrecord : record report entry v.outcome = report ++ reportOf [v] :=
        record_eq report v
      rw [runEntries_cons, hrecord, ih, after_processEntry, Report.append_assoc,
        ← reportOf_append]
      rfl

theorem run_eq (c : Catalog σ) (state : τ) :
    c.run model engine state =
      (reportOf (verdicts model engine state c.values),
        engine.after state (templates model c.values)) :=
  runEntries_eq c.values {} state

/-!
# The outcome of an entry
-/

theorem verdict_mem {entries before rest : List (CatalogEntry σ)} {entry : CatalogEntry σ}
    (h : entries = before ++ entry :: rest) (state : τ) :
    ⟨entry, (processEntry model engine
        (engine.after state (templates model before)) entry).1⟩ ∈
      verdicts model engine state entries := by
  rw [h, verdicts_append, verdicts_cons]
  exact List.mem_append_right _ List.mem_cons_self

theorem Verdict.failure?_eq_some {v : Verdict σ} {f : FailedEntry} :
    v.failure? = some f ↔
      v.outcome = .error f.error ∧ v.entry.name = f.name ∧ v.entry.origin = f.origin := by
  rcases v with ⟨entry, outcome⟩
  rcases f with ⟨name, origin, error⟩
  cases outcome with
  | ok _ => simp [failure?]
  | error cause => simp [failure?]; tauto

theorem Verdict.passed_iff {v : Verdict σ} : v.passed = true ↔ v.outcome = .ok () := by
  rcases v with ⟨entry, outcome⟩
  cases outcome with
  | ok _ => simp [passed]
  | error cause => simp [passed]

theorem eq_of_name_eq {vs : List (Verdict σ)} (hvs : (vs.map fun v => v.entry.name).Nodup)
    {v w : Verdict σ} (hv : v ∈ vs) (hw : w ∈ vs) (h : w.entry.name = v.entry.name) : w = v :=
  List.inj_on_of_nodup_map hvs hw hv h

theorem mem_failed_iff {vs : List (Verdict σ)} (hvs : (vs.map fun v => v.entry.name).Nodup)
    {v : Verdict σ} (hv : v ∈ vs) (cause : Failure) :
    ⟨v.entry.name, v.entry.origin, cause⟩ ∈ (reportOf vs).failed ↔ v.outcome = .error cause := by
  constructor
  · intro h
    rcases List.mem_filterMap.mp h with ⟨w, hw, hfailure⟩
    rcases Verdict.failure?_eq_some.mp hfailure with ⟨houtcome, hname, _⟩
    rw [← eq_of_name_eq hvs hv hw hname]
    exact houtcome
  · intro h
    exact List.mem_filterMap.mpr ⟨v, hv, Verdict.failure?_eq_some.mpr ⟨h, rfl, rfl⟩⟩

theorem mem_succeeded_iff {vs : List (Verdict σ)} (hvs : (vs.map fun v => v.entry.name).Nodup)
    {v : Verdict σ} (hv : v ∈ vs) :
    v.entry.name ∈ (reportOf vs).succeeded ↔ v.outcome = .ok () := by
  constructor
  · intro h
    rcases List.mem_map.mp h with ⟨w, hw, hname⟩
    rcases List.mem_filter.mp hw with ⟨hmem, hpassed⟩
    rw [← eq_of_name_eq hvs hv hmem hname]
    exact Verdict.passed_iff.mp hpassed
  · intro h
    exact List.mem_map_of_mem (List.mem_filter.mpr ⟨hv, Verdict.passed_iff.mpr h⟩)

theorem outcome_iff (state : τ) (entry : CatalogEntry σ) :
    (∀ cause, (processEntry model engine state entry).1 = .error (.build cause) ↔
        entry.template.build model = .error cause) ∧
      (∀ cause, (processEntry model engine state entry).1 = .error (.engine cause) ↔
        ∃ template, entry.template.build model = .ok template ∧
          (engine state template).1 = .error cause) ∧
      ((processEntry model engine state entry).1 = .ok () ↔
        ∃ template, entry.template.build model = .ok template ∧
          (engine state template).1 = .ok ()) := by
  cases hbuild : entry.template.build model with
  | error cause =>
      rw [processEntry_of_fail hbuild]
      simp
  | ok template =>
      rw [processEntry_of_build hbuild]
      cases hengine : (engine state template).1 with
      | ok _ => simp [Except.mapError, hengine]
      | error cause => simp [Except.mapError, hengine]

/-!
# The lists of a report
-/

theorem failed_reportOf (vs : List (Verdict σ)) :
    (reportOf vs).failed.map (fun f => (f.name, f.origin)) =
      (vs.filter fun v => !v.passed).map fun v => (v.entry.name, v.entry.origin) := by
  unfold reportOf
  induction vs with
  | nil =>
      rfl
  | cons v rest ih =>
      rcases v with ⟨entry, outcome⟩
      cases outcome with
      | ok _ => exact ih
      | error cause => exact congrArg ((entry.name, entry.origin) :: ·) ih

theorem perm_reportOf (vs : List (Verdict σ)) :
    ((reportOf vs).succeeded ++ (reportOf vs).failed.map FailedEntry.name).Perm
      (vs.map fun v => v.entry.name) := by
  have hfailed : (reportOf vs).failed.map FailedEntry.name =
      (vs.filter fun v => !v.passed).map fun v => v.entry.name := by
    have hnames := congrArg (List.map Prod.fst) (failed_reportOf vs)
    rw [List.map_map, List.map_map] at hnames
    exact hnames
  rw [hfailed, reportOf, ← List.map_append]
  exact (List.filter_append_perm Verdict.passed vs).map _

/-!
# Names
-/

def Named (c : Catalog σ) : Prop :=
  ∀ e ∈ c.entries, e.2.name = e.1

theorem Named.register {c : Catalog σ} (h : c.Named) (entry : CatalogEntry σ) :
    (c.register entry).Named := by
  intro e he
  rcases OrderedMap.mem_put he with rfl | hold
  · rfl
  · exact h e hold

theorem named_ofEntries (registered : List (CatalogEntry σ)) : (ofEntries registered).Named := by
  have hregistered : ∀ c : Catalog σ, c.Named → (registered.foldl register c).Named := by
    induction registered with
    | nil =>
        intro c hc
        exact hc
    | cons entry rest ih =>
        intro c hc
        exact ih (c.register entry) (hc.register entry)
  apply hregistered
  intro e he
  cases he

theorem nodup_ofEntries (registered : List (CatalogEntry σ)) :
    ((ofEntries registered).values.map CatalogEntry.name).Nodup := by
  have hnames : (ofEntries registered).values.map CatalogEntry.name =
      (ofEntries registered).keys := by
    unfold OrderedMap.values OrderedMap.keys
    rw [List.map_map]
    exact List.map_congr_left (named_ofEntries registered)
  rw [hnames]
  exact (ofEntries registered).nodup

/-!
# The calls of the engine
-/

theorem runEntries_traced (entries : List (CatalogEntry σ)) (report : Report) (state : τ)
    (seen : List (τ × SealedTemplate)) :
    runEntries model engine.traced entries report (state, seen) =
      ((runEntries model engine entries report state).1,
        (runEntries model engine entries report state).2,
        seen ++ engine.calls state (templates model entries)) := by
  induction entries generalizing report state seen with
  | nil =>
      simp [runEntries, templates, Engine.calls]
  | cons entry rest ih =>
      cases hbuild : entry.template.build model with
      | error cause =>
          rw [runEntries_cons, runEntries_cons, processEntry_of_fail hbuild,
            processEntry_of_fail hbuild, templates_cons_of_fail hbuild, ih]
      | ok template =>
          rw [runEntries_cons, runEntries_cons, processEntry_of_build hbuild,
            processEntry_of_build hbuild, templates_cons_of_build hbuild]
          simp only [Engine.traced, Engine.calls]
          rw [ih, List.append_assoc]
          rfl

/-!
# Isolation
-/

/-- What a batch over `c` does with every entry. -/
structure Isolated (c : Catalog σ) (model : Model) (engine : Engine τ) (state : τ) : Prop where
  distinct : (c.values.map CatalogEntry.name).Nodup
  listed :
    ((c.run model engine state).1.succeeded ++
      (c.run model engine state).1.failed.map FailedEntry.name).Perm
        (c.values.map CatalogEntry.name)
  apart :
    List.Disjoint (c.run model engine state).1.succeeded
      ((c.run model engine state).1.failed.map FailedEntry.name)
  succeeded_order :
    (c.run model engine state).1.succeeded.Sublist (c.values.map CatalogEntry.name)
  failed_order :
    ((c.run model engine state).1.failed.map fun f => (f.name, f.origin)).Sublist
      (c.values.map fun entry => (entry.name, entry.origin))
  unbuilt : ∀ entry ∈ c.values, ∀ cause,
    ⟨entry.name, entry.origin, .build cause⟩ ∈ (c.run model engine state).1.failed ↔
      entry.template.build model = .error cause
  refused : ∀ before entry rest, c.values = before ++ entry :: rest → ∀ cause,
    ⟨entry.name, entry.origin, .engine cause⟩ ∈ (c.run model engine state).1.failed ↔
      ∃ template, entry.template.build model = .ok template ∧
        (engine (engine.after state (templates model before)) template).1 = .error cause
  passed : ∀ before entry rest, c.values = before ++ entry :: rest →
    (entry.name ∈ (c.run model engine state).1.succeeded ↔
      ∃ template, entry.template.build model = .ok template ∧
        (engine (engine.after state (templates model before)) template).1 = .ok ())
  final : (c.run model engine state).2 = engine.after state (templates model c.values)
  received :
    c.run model engine.traced (state, []) =
      ((c.run model engine state).1, (c.run model engine state).2,
        engine.calls state (templates model c.values))
  removable : ∀ before entry rest cause, c.values = before ++ entry :: rest →
    entry.template.build model = .error cause →
      ∀ other : Catalog σ, other.values = before ++ rest →
        (other.run model engine state).2 = (c.run model engine state).2 ∧
          (other.run model engine state).1.succeeded = (c.run model engine state).1.succeeded ∧
          ∃ front back, (other.run model engine state).1.failed = front ++ back ∧
            (c.run model engine state).1.failed =
              front ++ ⟨entry.name, entry.origin, .build cause⟩ :: back

theorem report_eq (c : Catalog σ) (state : τ) :
    (c.run model engine state).1 = reportOf (verdicts model engine state c.values) :=
  congrArg Prod.fst (run_eq c state)

theorem state_eq (c : Catalog σ) (state : τ) :
    (c.run model engine state).2 = engine.after state (templates model c.values) :=
  congrArg Prod.snd (run_eq c state)

theorem run_removed {c other : Catalog σ} {before rest : List (CatalogEntry σ)}
    {entry : CatalogEntry σ} {cause : Refusal} (hc : c.values = before ++ entry :: rest)
    (hbuild : entry.template.build model = .error cause)
    (hother : other.values = before ++ rest) (state : τ) :
    (other.run model engine state).2 = (c.run model engine state).2 ∧
      (other.run model engine state).1.succeeded = (c.run model engine state).1.succeeded ∧
      ∃ front back, (other.run model engine state).1.failed = front ++ back ∧
        (c.run model engine state).1.failed =
          front ++ ⟨entry.name, entry.origin, .build cause⟩ :: back := by
  let front := verdicts model engine state before
  let back := verdicts model engine (engine.after state (templates model before)) rest
  have hwith : verdicts model engine state c.values =
      front ++ ⟨entry, .error (.build cause)⟩ :: back := by
    rw [hc, verdicts_append, verdicts_cons, processEntry_of_fail hbuild]
  have hwithout : verdicts model engine state other.values = front ++ back := by
    rw [hother, verdicts_append]
  refine ⟨?_, ?_, (reportOf front).failed, (reportOf back).failed, ?_, ?_⟩
  · rw [state_eq, state_eq, hc, hother, templates_append, templates_append,
      templates_cons_of_fail hbuild]
  · rw [report_eq, report_eq, hwith, hwithout]
    simp [reportOf, Verdict.passed]
  · rw [report_eq, hwithout, reportOf_append]
    rfl
  · rw [report_eq, hwith, reportOf_append]
    rfl

/-!
# Catalogues of distinct names
-/

section

variable {c : Catalog σ} (hdistinct : (c.values.map CatalogEntry.name).Nodup)
include hdistinct

theorem nodup_verdicts (state : τ) :
    ((verdicts model engine state c.values).map fun v => v.entry.name).Nodup := by
  rw [map_verdicts]
  exact hdistinct

theorem mem_failed_run {before rest : List (CatalogEntry σ)} {entry : CatalogEntry σ}
    (h : c.values = before ++ entry :: rest) (state : τ) (cause : Failure) :
    ⟨entry.name, entry.origin, cause⟩ ∈ (c.run model engine state).1.failed ↔
      (processEntry model engine (engine.after state (templates model before)) entry).1 =
        .error cause := by
  rw [report_eq]
  exact mem_failed_iff (nodup_verdicts hdistinct state) (verdict_mem h state) cause

theorem mem_succeeded_run {before rest : List (CatalogEntry σ)} {entry : CatalogEntry σ}
    (h : c.values = before ++ entry :: rest) (state : τ) :
    entry.name ∈ (c.run model engine state).1.succeeded ↔
      (processEntry model engine (engine.after state (templates model before)) entry).1 =
        .ok () := by
  rw [report_eq]
  exact mem_succeeded_iff (nodup_verdicts hdistinct state) (verdict_mem h state)

end

theorem listed_run (c : Catalog σ) (state : τ) :
    ((c.run model engine state).1.succeeded ++
      (c.run model engine state).1.failed.map FailedEntry.name).Perm
        (c.values.map CatalogEntry.name) := by
  have hlisted := perm_reportOf (verdicts model engine state c.values)
  rw [map_verdicts] at hlisted
  rw [report_eq]
  exact hlisted

theorem isolated_of_registered (registered : List (CatalogEntry σ)) (model : Model)
    (engine : Engine τ) (state : τ) : Isolated (ofEntries registered) model engine state := by
  let c : Catalog σ := ofEntries registered
  have hdistinct : (c.values.map CatalogEntry.name).Nodup := nodup_ofEntries registered
  constructor
  case distinct => exact hdistinct
  case listed => exact listed_run c state
  case apart =>
    exact List.disjoint_of_nodup_append ((listed_run c state).nodup_iff.mpr hdistinct)
  case succeeded_order =>
    rw [report_eq, ← map_verdicts CatalogEntry.name state]
    exact (List.filter_sublist).map _
  case failed_order =>
    rw [report_eq, failed_reportOf,
      ← map_verdicts (fun entry => (entry.name, entry.origin)) state]
    exact (List.filter_sublist).map _
  case unbuilt =>
    intro entry hentry cause
    rcases List.append_of_mem hentry with ⟨before, rest, hvalues⟩
    exact (mem_failed_run hdistinct hvalues state _).trans ((outcome_iff _ entry).1 cause)
  case refused =>
    intro before entry rest hvalues cause
    exact (mem_failed_run hdistinct hvalues state _).trans ((outcome_iff _ entry).2.1 cause)
  case passed =>
    intro before entry rest hvalues
    exact (mem_succeeded_run hdistinct hvalues state).trans (outcome_iff _ entry).2.2
  case final => exact state_eq c state
  case received => exact runEntries_traced c.values {} state []
  case removable =>
    intro before entry rest cause hvalues hbuild other hother
    exact run_removed hvalues hbuild hother state

example :
    let registered : List (CatalogEntry Unit) :=
      [⟨"open", "first", ⟨"open", (), .ok, .skip, fun notes c =>
          .ok (notes, (c.openBlock .sequence {}).2), .skip⟩⟩,
        ⟨"plain", "second", ⟨"plain", (), .ok, .skip, .skip, .skip⟩⟩,
        ⟨"again", "third", ⟨"again", (), .ok, .skip, .skip, .skip⟩⟩]
    let engine : Engine Nat := fun count _ =>
      (if count = 1 then .error ⟨"full", []⟩ else .ok (), count + 1)
    (ofEntries registered).run (.named "empty") engine 0 =
      (⟨["plain"], [⟨"open", "first", .build (.structural (.blocksLeftOpen 1))⟩,
        ⟨"again", "third", .engine ⟨"full", []⟩⟩]⟩, 2) := by
  decide

end Catalog
end Stimulus
