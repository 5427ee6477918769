import Stimulus.Proofs.BlockDistance
import Stimulus.Proofs.IndexedLabels
import Stimulus.Proofs.ScopedResolution
import Mathlib.Data.List.Nodup

/-!
# Label tables

## Declarations

A table takes declarations of code and of data labels in any order.  It refuses a name
that has been declared in the same scope, and a refused declaration changes nothing.

## References

A table answers references by the rule of scopes.  The answers depend on the accepted
declarations alone, whatever the order in which they came.
-/

namespace Stimulus

/-!
# Declarations as calls
-/

def LabelDeclaration.key (e : LabelDeclaration) : String × BlockId :=
  (e.name, e.scope)

inductive LabelCall where
  | code (name : String) (scope : BlockId) (position : Nat)
  | data (name : String) (address : UInt64)

namespace LabelCall

def entry : LabelCall → LabelDeclaration
  | code name scope position => ⟨name, scope, .code scope position⟩
  | data name address => ⟨name, .root, .data address⟩

def perform (t : Labels) : LabelCall → Except StructureFault Labels
  | code name scope position => t.declareAt name scope position
  | data name address => t.declareAddress name address

/-- One of the declarations has the name and the scope of the call. -/
def DeclaredIn (declared : List LabelDeclaration) (call : LabelCall) : Prop :=
  ∃ e ∈ declared, e.name = call.entry.name ∧ e.scope = call.entry.scope

theorem declaredIn_iff {declared : List LabelDeclaration} {call : LabelCall} :
    call.DeclaredIn declared ↔ call.entry.key ∈ declared.map LabelDeclaration.key := by
  unfold DeclaredIn LabelDeclaration.key
  rw [List.mem_map]
  simp only [Prod.mk.injEq]

theorem perform_eq (t : Labels) (call : LabelCall) : call.perform t = t.declare call.entry := by
  cases call with
  | code name scope position => rfl
  | data name address => rfl

end LabelCall

namespace Labels

variable {t : Labels}

def after (t : Labels) (calls : List LabelCall) : Labels :=
  calls.foldl (fun t call => (call.perform t).toOption.getD t) t

/-- The declarations of the calls that are accepted, in order. -/
def accepted (t : Labels) : List LabelCall → List LabelDeclaration
  | [] => []
  | call :: rest =>
      match call.perform t with
      | .ok next => call.entry :: next.accepted rest
      | .error _ => t.accepted rest

theorem perform_of_fresh {call : LabelCall} (h : ¬ call.DeclaredIn t.entries) :
    call.perform t = .ok ⟨t.entries ++ [call.entry]⟩ := by
  rw [LabelCall.perform_eq]
  refine declare_eq_ok.mpr ⟨?_, rfl⟩
  intro e he hname hscope
  exact h ⟨e, he, hname, hscope⟩

theorem perform_of_declared {call : LabelCall} (h : call.DeclaredIn t.entries) :
    call.perform t = .error (.labelDeclaredTwice call.entry.name call.entry.scope) := by
  rcases h with ⟨e, he, hname, hscope⟩
  rw [LabelCall.perform_eq, declare, if_pos]
  exact List.any_eq_true.mpr ⟨e, he, by simp [hname, hscope]⟩

theorem after_cons_of_fresh {call : LabelCall} (h : ¬ call.DeclaredIn t.entries)
    (rest : List LabelCall) :
    t.after (call :: rest) = (Labels.mk (t.entries ++ [call.entry])).after rest := by
  unfold after
  rw [List.foldl_cons, perform_of_fresh h]
  rfl

theorem after_cons_of_declared {call : LabelCall} (h : call.DeclaredIn t.entries)
    (rest : List LabelCall) : t.after (call :: rest) = t.after rest := by
  unfold after
  rw [List.foldl_cons, perform_of_declared h]
  rfl

theorem accepted_cons_of_fresh {call : LabelCall} (h : ¬ call.DeclaredIn t.entries)
    (rest : List LabelCall) :
    t.accepted (call :: rest) =
      call.entry :: (Labels.mk (t.entries ++ [call.entry])).accepted rest := by
  rw [accepted, perform_of_fresh h]

theorem accepted_cons_of_declared {call : LabelCall} (h : call.DeclaredIn t.entries)
    (rest : List LabelCall) : t.accepted (call :: rest) = t.accepted rest := by
  rw [accepted, perform_of_declared h]

theorem after_append (front back : List LabelCall) :
    t.after (front ++ back) = (t.after front).after back :=
  List.foldl_append

theorem entries_after (calls : List LabelCall) :
    (t.after calls).entries = t.entries ++ t.accepted calls := by
  induction calls generalizing t with
  | nil =>
      exact (List.append_nil _).symm
  | cons call rest ih =>
      by_cases h : call.DeclaredIn t.entries
      · rw [after_cons_of_declared h, accepted_cons_of_declared h, ih]
      · rw [after_cons_of_fresh h, accepted_cons_of_fresh h, ih, List.append_assoc]
        rfl

/-!
# Distinct scopes
-/

def Distinct (t : Labels) : Prop :=
  (t.entries.map LabelDeclaration.key).Nodup

theorem Distinct.fresh (h : t.Distinct) {call : LabelCall} (hfresh : ¬ call.DeclaredIn t.entries) :
    (Labels.mk (t.entries ++ [call.entry])).Distinct := by
  unfold Distinct
  rw [List.map_append, List.map_singleton, ← List.concat_eq_append, List.nodup_concat]
  refine ⟨?_, h⟩
  rwa [← LabelCall.declaredIn_iff]

theorem Distinct.after (h : t.Distinct) (calls : List LabelCall) : (t.after calls).Distinct := by
  induction calls generalizing t with
  | nil =>
      exact h
  | cons call rest ih =>
      by_cases hdeclared : call.DeclaredIn t.entries
      · rw [after_cons_of_declared hdeclared]
        exact ih h
      · rw [after_cons_of_fresh hdeclared]
        exact ih (h.fresh hdeclared)

theorem Distinct.unique (h : t.Distinct) :
    ∀ e ∈ t.entries, ∀ e' ∈ t.entries, e.name = e'.name → e.scope = e'.scope → e = e' := by
  intro e he e' he' hname hscope
  exact List.inj_on_of_nodup_map h he he' (Prod.ext hname hscope)

theorem accepted_of_nodup {calls : List LabelCall}
    (h : ((t.entries ++ calls.map LabelCall.entry).map LabelDeclaration.key).Nodup) :
    t.accepted calls = calls.map LabelCall.entry := by
  induction calls generalizing t with
  | nil =>
      rfl
  | cons call rest ih =>
      rw [List.map_cons, List.append_cons] at h
      have hfresh : ¬ call.DeclaredIn t.entries := by
        rw [LabelCall.declaredIn_iff]
        rw [List.map_append, List.map_append, List.append_assoc] at h
        intro hmem
        exact List.disjoint_of_nodup_append h hmem List.mem_cons_self
      rw [accepted_cons_of_fresh hfresh, ih h, List.map_cons]

end Labels

/-!
# Calls in place
-/

namespace IndexedLabels

def declareAll (t : IndexedLabels) (calls : List LabelCall) : IndexedLabels :=
  calls.foldl (fun t call => ((declare call.entry).call t).2) t

variable {t : IndexedLabels}

theorem call_declare_of_declared (hindex : t.Indexes) {call : LabelCall}
    (h : call.DeclaredIn t.table.entries) :
    (declare call.entry).call t =
      (.error (.structural (.labelDeclaredTwice call.entry.name call.entry.scope)), t) := by
  rw [call_declare hindex, ← LabelCall.perform_eq, Labels.perform_of_declared h]
  rfl

theorem call_declare_of_fresh (hindex : t.Indexes) {call : LabelCall}
    (h : ¬ call.DeclaredIn t.table.entries) :
    (declare call.entry).call t = (.ok (), t.declared call.entry) := by
  rw [call_declare hindex, ← LabelCall.perform_eq, Labels.perform_of_fresh h]
  rfl

theorem InStep.declareAll (hstep : t.InStep) (calls : List LabelCall) :
    (t.declareAll calls).InStep ∧ (t.declareAll calls).table = t.table.after calls := by
  induction calls generalizing t with
  | nil =>
      exact ⟨hstep, rfl⟩
  | cons call rest ih =>
      by_cases h : call.DeclaredIn t.table.entries
      · have hsame : t.declareAll (call :: rest) = t.declareAll rest := by
          unfold IndexedLabels.declareAll
          rw [List.foldl_cons, call_declare_of_declared hstep.indexes h]
        rw [hsame, Labels.after_cons_of_declared h]
        exact ih hstep
      · have hnext : t.declareAll (call :: rest) = (t.declared call.entry).declareAll rest := by
          unfold IndexedLabels.declareAll
          rw [List.foldl_cons, call_declare_of_fresh hstep.indexes h]
        rw [hnext, Labels.after_cons_of_fresh h]
        exact ih (hstep.declared call.entry)

end IndexedLabels

/-!
# Answers of a table
-/

def acceptedOf (calls : List LabelCall) : List LabelDeclaration :=
  ({} : Labels).accepted calls

def tableOf (calls : List LabelCall) : Labels :=
  ({} : Labels).after calls

/-- How a table that has taken `calls` answers declarations and references. -/
structure ResolvesByScope (calls : List LabelCall) : Prop where
  refused : ∀ call : LabelCall, call.DeclaredIn (acceptedOf calls) ↔
    call.perform (tableOf calls) =
      .error (.labelDeclaredTwice call.entry.name call.entry.scope)
  taken : ∀ call : LabelCall, ¬ call.DeclaredIn (acceptedOf calls) ↔
    call.perform (tableOf calls) = .ok (tableOf (calls ++ [call]))
  unchanged : ∀ t : IndexedLabels, t.Indexes → t.table = {} →
    (t.declareAll calls).table = tableOf calls ∧
      ∀ call : LabelCall, call.DeclaredIn (acceptedOf calls) →
        (IndexedLabels.declare call.entry).call (t.declareAll calls) =
          (.error (.structural (.labelDeclaredTwice call.entry.name call.entry.scope)),
            t.declareAll calls)
  indexed : ∀ t : IndexedLabels, t.Indexes → t.table = {} → ∀ name origin,
    (t.declareAll calls).resolve name origin = (tableOf calls).resolve name origin
  resolution : ∀ name origin r, (tableOf calls).resolve name origin = r ↔
    Resolves name ((acceptedOf calls).filter fun e => e.name == name) origin r
  distance : ∀ a b : BlockId, IsLeast {n | BlockId.Walk n a b} (a.distance b)
  order : ∀ other, (acceptedOf calls).Perm (acceptedOf other) → ∀ name,
    (∀ origin, (tableOf other).resolve name origin = (tableOf calls).resolve name origin) ∧
      (tableOf other).dataAddress name = (tableOf calls).dataAddress name
  reordered : ∀ other : List LabelCall, (acceptedOf calls).Perm (other.map LabelCall.entry) →
    acceptedOf other = other.map LabelCall.entry

theorem entries_tableOf (calls : List LabelCall) :
    (tableOf calls).entries = acceptedOf calls :=
  Labels.entries_after calls

theorem distinct_tableOf (calls : List LabelCall) : (tableOf calls).Distinct := by
  have hempty : ({} : Labels).Distinct := List.nodup_nil
  exact hempty.after calls

theorem tableOf_concat {calls : List LabelCall} {call : LabelCall}
    (h : ¬ call.DeclaredIn (tableOf calls).entries) :
    tableOf (calls ++ [call]) = ⟨(tableOf calls).entries ++ [call.entry]⟩ := by
  unfold tableOf at h ⊢
  rw [Labels.after_append, Labels.after_cons_of_fresh h]
  rfl

theorem perform_tableOf_of_declared {calls : List LabelCall} {call : LabelCall}
    (h : call.DeclaredIn (acceptedOf calls)) :
    call.perform (tableOf calls) =
      .error (.labelDeclaredTwice call.entry.name call.entry.scope) := by
  rw [← entries_tableOf] at h
  exact Labels.perform_of_declared h

theorem perform_tableOf_of_fresh {calls : List LabelCall} {call : LabelCall}
    (h : ¬ call.DeclaredIn (acceptedOf calls)) :
    call.perform (tableOf calls) = .ok (tableOf (calls ++ [call])) := by
  rw [← entries_tableOf] at h
  rw [Labels.perform_of_fresh h, tableOf_concat h]

theorem declareAll_of_empty {t : IndexedLabels} (hindex : t.Indexes) (hempty : t.table = {})
    (calls : List LabelCall) :
    (t.declareAll calls).InStep ∧ (t.declareAll calls).table = tableOf calls := by
  have hstep := (IndexedLabels.inStep_of_empty hindex hempty).declareAll calls
  rwa [hempty] at hstep

theorem named_tableOf (calls : List LabelCall) (name : String) :
    (tableOf calls).named name = (acceptedOf calls).filter fun e => e.name == name := by
  rw [← entries_tableOf]
  rfl

theorem resolvesByScope (calls : List LabelCall) : ResolvesByScope calls := by
  constructor
  case refused =>
    intro call
    refine ⟨perform_tableOf_of_declared, fun h => ?_⟩
    by_contra hfresh
    rw [perform_tableOf_of_fresh hfresh] at h
    cases h
  case taken =>
    intro call
    refine ⟨perform_tableOf_of_fresh, fun h hdeclared => ?_⟩
    rw [perform_tableOf_of_declared hdeclared] at h
    cases h
  case unchanged =>
    intro t hindex hempty
    rcases declareAll_of_empty hindex hempty calls with ⟨hstep, htable⟩
    refine ⟨htable, fun call h => ?_⟩
    apply IndexedLabels.call_declare_of_declared hstep.indexes
    rw [htable, entries_tableOf]
    exact h
  case indexed =>
    intro t hindex hempty name origin
    rcases declareAll_of_empty hindex hempty calls with ⟨hstep, htable⟩
    rw [hstep.resolve_eq, htable]
    rw [htable]
    exact Labels.eq_of_mem_named (distinct_tableOf calls).unique
  case resolution =>
    intro name origin r
    rw [← named_tableOf]
    exact Labels.resolve_iff (Labels.eq_of_mem_named (distinct_tableOf calls).unique)
  case distance =>
    exact BlockId.isLeast_distance
  case order =>
    intro other hperm name
    rw [← entries_tableOf calls, ← entries_tableOf other] at hperm
    have hresolve := Labels.resolve_perm (distinct_tableOf calls).unique hperm
    exact ⟨fun origin => (hresolve name origin).symm,
      (Labels.dataAddress_congr hresolve name).symm⟩
  case reordered =>
    intro other hperm
    have hdistinct := distinct_tableOf calls
    rw [Labels.Distinct, entries_tableOf] at hdistinct
    exact Labels.accepted_of_nodup
      ((hperm.map LabelDeclaration.key).nodup_iff.mp hdistinct)

example :
    (tableOf [.code "x" ⟨[1]⟩ 0, .code "x" ⟨[0, 1, 0]⟩ 0, .code "x" ⟨[1]⟩ 4]).resolve "x" ⟨[0, 0]⟩ =
      .error (.labelAmbiguous "x" 2) := by
  rfl

end Stimulus
