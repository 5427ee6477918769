import Stimulus.Proofs.SequenceAllocations
import Stimulus.Request.AllocationDraft

/-!
# Clauses of allocations

## What clauses say

Each clause retains or excludes resources, sets a window, or writes weights, and some of
its items may be unsuitable.  What a list of clauses says is read off the clauses one by
one and put together: lists are appended, and the last window and the last weight for a
use stay.

## Drafts

A draft takes everything suitable and remembers the first fault.  So it ends as the
constraint does that stops at the first fault, and both end as the clauses say.
-/

namespace Stimulus

open Checked

/-!
# Faults
-/

def orFirst {α : Type} (faults : List ArgumentFault) (value : α) : Except ArgumentFault α :=
  match faults with
  | [] => .ok value
  | fault :: _ => .error fault

theorem orFirst_bind {α β : Type} (faults : List ArgumentFault) (value : α) (f : α → β) :
    (orFirst faults value >>= fun a => pure (f a)) = orFirst faults (f value) := by
  cases faults <;> rfl

theorem orFirst_congr {α : Type} {faults : List ArgumentFault} {value value' : α}
    (h : faults = [] → value = value') : orFirst faults value = orFirst faults value' := by
  cases faults with
  | nil => exact congrArg Except.ok (h rfl)
  | cons fault later => rfl

theorem orFirst_append {α : Type} (faults later : List ArgumentFault) (value : α) :
    orFirst (faults ++ later) value = orFirst faults () >>= fun _ => orFirst later value := by
  cases faults <;> rfl

theorem AccessKind.ofName_eq_error {word : String} {fault : ArgumentFault} :
    ofName word = .error fault ↔
      (ofName word).toOption.isNone = true ∧ fault = .unknownWord .accessKind word := by
  unfold ofName
  split
  · simp [Except.toOption]
  · split <;> simp [Except.toOption, eq_comm]

theorem LastUse.ofName_eq_error {word : String} {fault : ArgumentFault} :
    ofName word = .error fault ↔
      (ofName word).toOption.isNone = true ∧ fault = .unknownWord .lastUse word := by
  unfold ofName
  split <;> simp [Except.toOption, eq_comm]

/-!
# Single clauses
-/

namespace AllocationClause

@[simp]
def retained : AllocationClause → List Primitive
  | .retain resources => resources
  | _ => []

@[simp]
def excluded : AllocationClause → List Primitive
  | .exclude resources => resources
  | _ => []

@[simp]
def window? : AllocationClause → Option Nat
  | .track window => some window
  | _ => none

def known (named : List (String × Nat)) : List (LastUse × Nat) :=
  named.filterMap fun entry => (LastUse.ofName entry.1).toOption.map fun use => (use, entry.2)

@[simp]
def written (access : AccessKind) : AllocationClause → List (LastUse × Nat)
  | .weights other listed => if other = access then listed else []
  | .namedWeights word named =>
      if (AccessKind.ofName word).toOption = some access then known named else []
  | _ => []

def modeFaults (use : ModeUse) (resources : List Primitive) : List ArgumentFault :=
  (resources.filter fun p => p.kind ≠ .mode).map (.notAMode use)

theorem filter_of_modeFaults {use : ModeUse} {resources : List Primitive}
    (h : modeFaults use resources = []) :
    resources.filter (fun p => p.kind = .mode) = resources := by
  have hmodes := List.filter_eq_nil_iff.mp (List.map_eq_nil_iff.mp h)
  apply List.filter_eq_self.mpr
  simpa using hmodes

def weightFaults (named : List (String × Nat)) : List ArgumentFault :=
  (named.filter fun entry => (LastUse.ofName entry.1).toOption.isNone).map fun entry =>
    .unknownWord .lastUse entry.1

@[simp]
def faults : AllocationClause → List ArgumentFault
  | .retain resources => modeFaults .retain resources
  | .exclude resources => modeFaults .exclude resources
  | .track _ => []
  | .weights _ _ => []
  | .namedWeights word named =>
      if (AccessKind.ofName word).toOption.isNone then [.unknownWord .accessKind word]
      else weightFaults named

theorem filter_retained {c : AllocationClause} (h : c.faults = []) :
    c.retained.filter (fun p => p.kind = .mode) = c.retained := by
  cases c with
  | retain resources => exact filter_of_modeFaults h
  | _ => rfl

theorem filter_excluded {c : AllocationClause} (h : c.faults = []) :
    c.excluded.filter (fun p => p.kind = .mode) = c.excluded := by
  cases c with
  | exclude resources => exact filter_of_modeFaults h
  | _ => rfl

end AllocationClause

/-!
# Weights
-/

namespace UseWeights

theorem get_set (w : UseWeights) (use other : LastUse) (weight : Nat) :
    (w.set use weight).get other = if use = other then some weight else w.get other := by
  cases use <;> cases other <;> rfl

@[simp]
theorem setAll_nil (w : UseWeights) : w.setAll [] = w :=
  rfl

theorem setAll_append (w : UseWeights) (weights later : List (LastUse × Nat)) :
    w.setAll (weights ++ later) = (w.setAll weights).setAll later :=
  List.foldl_append

@[simp]
theorem get_empty (use : LastUse) : UseWeights.get {} use = none := by
  cases use <;> rfl

def lastWritten? (use : LastUse) (weights : List (LastUse × Nat)) : Option Nat :=
  (weights.filter fun entry => entry.1 = use).getLast?.map Prod.snd

theorem get_setAll (w : UseWeights) (use : LastUse) (weights : List (LastUse × Nat)) :
    (w.setAll weights).get use = (lastWritten? use weights).or (w.get use) := by
  induction weights generalizing w with
  | nil => rfl
  | cons entry rest ih =>
      have hrest : (w.setAll (entry :: rest)).get use =
          (lastWritten? use rest).or ((w.set entry.1 entry.2).get use) := ih _
      rw [hrest, get_set, lastWritten?, lastWritten?]
      by_cases hentry : entry.1 = use
      · rw [if_pos hentry, List.filter_cons_of_pos (by simpa using hentry), List.getLast?_cons]
        cases (rest.filter fun entry => entry.1 = use).getLast? <;> rfl
      · rw [if_neg hentry, List.filter_cons_of_neg (by simpa using hentry)]

end UseWeights

/-!
# What is collected
-/

namespace Allocation

def extend (a : Allocation) (c : AllocationClause) : Allocation where
  resourceClass := a.resourceClass
  retain := a.retain ++ c.retained.filter fun p => p.kind = .mode
  exclude := a.exclude ++ c.excluded.filter fun p => p.kind = .mode
  track := c.window?.getD a.track
  read := a.read.setAll (c.written .read)
  write := a.write.setAll (c.written .write)

theorem extendAll_eq (a : Allocation) (clauses : List AllocationClause) :
    clauses.foldl extend a =
      { resourceClass := a.resourceClass
        retain := a.retain ++
          (clauses.flatMap AllocationClause.retained).filter fun p => p.kind = .mode
        exclude := a.exclude ++
          (clauses.flatMap AllocationClause.excluded).filter fun p => p.kind = .mode
        track := (clauses.filterMap AllocationClause.window?).getLast?.getD a.track
        read := a.read.setAll (clauses.flatMap (AllocationClause.written .read))
        write := a.write.setAll (clauses.flatMap (AllocationClause.written .write)) } := by
  induction clauses generalizing a with
  | nil => simp
  | cons c rest ih =>
      rw [List.foldl_cons, ih]
      cases hwindow : c.window? with
      | none => simp [extend, UseWeights.setAll_append]
      | some window => simp [extend, UseWeights.setAll_append]

def collected (resourceClass : String) (clauses : List AllocationClause) : Allocation :=
  clauses.foldl extend ⟨resourceClass, [], [], 0, {}, {}⟩

theorem resourceClass_collected (resourceClass : String) (clauses : List AllocationClause) :
    (collected resourceClass clauses).resourceClass = resourceClass := by
  rw [collected, extendAll_eq]

/-!
# Stopping at the first fault
-/

theorem checkModes_eq (use : ModeUse) (resources : List Primitive) :
    checkModes use resources = orFirst (AllocationClause.modeFaults use resources) () := by
  induction resources with
  | nil => rfl
  | cons p rest ih =>
      rw [checkModes]
      by_cases hmode : p.kind = .mode
      · rw [if_pos hmode, ih]
        simp [AllocationClause.modeFaults, hmode]
      · simp [AllocationClause.modeFaults, hmode, orFirst]

theorem parseWeights_eq (named : List (String × Nat)) :
    parseWeights named =
      orFirst (AllocationClause.weightFaults named) (AllocationClause.known named) := by
  induction named with
  | nil => rfl
  | cons entry rest ih =>
      rcases entry with ⟨name, weight⟩
      cases hname : LastUse.ofName name with
      | error fault =>
          rcases LastUse.ofName_eq_error.mp hname with ⟨hunknown, rfl⟩
          have hfaults : AllocationClause.weightFaults ((name, weight) :: rest) =
              .unknownWord .lastUse name :: AllocationClause.weightFaults rest := by
            simp [AllocationClause.weightFaults, hunknown]
          rw [parseWeights, hname, hfaults]
          rfl
      | ok use =>
          have hfaults : AllocationClause.weightFaults ((name, weight) :: rest) =
              AllocationClause.weightFaults rest := by
            simp [AllocationClause.weightFaults, hname, Except.toOption]
          have hknown : AllocationClause.known ((name, weight) :: rest) =
              (use, weight) :: AllocationClause.known rest := by
            simp [AllocationClause.known, hname, Except.toOption]
          rw [parseWeights, hname, ih, hfaults, hknown]
          exact orFirst_bind _ _ _

theorem addWeights_eq (a : Allocation) (access : AccessKind) (weights : List (LastUse × Nat)) :
    a.addWeights access weights =
      { a with
        read := a.read.setAll (if access = .read then weights else [])
        write := a.write.setAll (if access = .write then weights else []) } := by
  cases access <;> rfl

theorem apply_eq (a : Allocation) (c : AllocationClause) :
    a.apply c = orFirst c.faults (a.extend c) := by
  cases c with
  | retain resources =>
      rw [apply, checkModes_eq, orFirst_bind]
      apply orFirst_congr
      intro hnone
      rw [extend, AllocationClause.retained, AllocationClause.filter_of_modeFaults hnone]
      simp
  | exclude resources =>
      rw [apply, checkModes_eq, orFirst_bind]
      apply orFirst_congr
      intro hnone
      rw [extend, AllocationClause.excluded, AllocationClause.filter_of_modeFaults hnone]
      simp
  | track window =>
      simp [apply, extend, orFirst]
  | weights access listed =>
      rw [apply, addWeights_eq]
      simp [extend, orFirst]
  | namedWeights word named =>
      cases hword : AccessKind.ofName word with
      | error fault =>
          rcases AccessKind.ofName_eq_error.mp hword with ⟨hunknown, rfl⟩
          rw [apply, hword, AllocationClause.faults, if_pos hunknown]
          rfl
      | ok access =>
          rw [apply, hword]
          change (parseWeights named >>= fun weights => pure (a.addWeights access weights)) = _
          rw [parseWeights_eq, orFirst_bind, addWeights_eq]
          simp [extend, hword, Except.toOption]

theorem applyAll_eq (a : Allocation) (clauses : List AllocationClause) :
    a.applyAll clauses =
      orFirst (clauses.flatMap AllocationClause.faults) (clauses.foldl extend a) := by
  induction clauses generalizing a with
  | nil => rfl
  | cons c rest ih =>
      rw [applyAll, apply_eq, List.flatMap_cons, orFirst_append]
      cases c.faults with
      | nil => exact ih (a.extend c)
      | cons fault later => rfl

end Allocation

/-!
# Going on after a fault
-/

namespace AllocationDraft

theorem takeModes_eq (use : ModeUse) (put : Allocation → Primitive → Allocation)
    (d : AllocationDraft) (resources : List Primitive) :
    d.takeModes use put resources =
      ⟨(resources.filter fun p => p.kind = .mode).foldl put d.allocation,
        d.fault?.or (AllocationClause.modeFaults use resources).head?⟩ := by
  induction resources generalizing d with
  | nil => simp [takeModes, AllocationClause.modeFaults]
  | cons p rest ih =>
      rw [takeModes]
      by_cases hmode : p.kind = .mode
      · rw [if_pos hmode, ih]
        simp [AllocationClause.modeFaults, hmode]
      · rw [if_neg hmode, ih]
        simp [AllocationClause.modeFaults, hmode, record]

theorem takeWeights_eq (d : AllocationDraft) (parsed : List (LastUse × Nat))
    (named : List (String × Nat)) :
    d.takeWeights parsed named =
      (⟨d.allocation, d.fault?.or (AllocationClause.weightFaults named).head?⟩,
        parsed ++ AllocationClause.known named) := by
  induction named generalizing d parsed with
  | nil => simp [takeWeights, AllocationClause.weightFaults, AllocationClause.known]
  | cons entry rest ih =>
      rcases entry with ⟨name, weight⟩
      unfold takeWeights
      split
      · rename_i use hname
        rw [ih]
        simp [AllocationClause.weightFaults, AllocationClause.known, hname, Except.toOption]
      · rename_i fault hname
        rcases LastUse.ofName_eq_error.mp hname with ⟨hunknown, rfl⟩
        rw [ih]
        simp [AllocationClause.weightFaults, AllocationClause.known, hname, Except.toOption,
          record]

theorem foldl_retain (a : Allocation) (resources : List Primitive) :
    resources.foldl (fun a p => { a with retain := a.retain ++ [p] }) a =
      { a with retain := a.retain ++ resources } := by
  induction resources generalizing a with
  | nil => simp
  | cons p rest ih => simp [ih]

theorem foldl_exclude (a : Allocation) (resources : List Primitive) :
    resources.foldl (fun a p => { a with exclude := a.exclude ++ [p] }) a =
      { a with exclude := a.exclude ++ resources } := by
  induction resources generalizing a with
  | nil => simp
  | cons p rest ih => simp [ih]

theorem add_eq (d : AllocationDraft) (c : AllocationClause) :
    d.add c = ⟨d.allocation.extend c, d.fault?.or c.faults.head?⟩ := by
  cases c with
  | retain resources =>
      rw [add, takeModes_eq, foldl_retain]
      simp [Allocation.extend]
  | exclude resources =>
      rw [add, takeModes_eq, foldl_exclude]
      simp [Allocation.extend]
  | track window => simp [add, Allocation.extend]
  | weights access listed => simp [add, Allocation.extend, Allocation.addWeights_eq]
  | namedWeights word named =>
      rw [add]
      cases hword : AccessKind.ofName word with
      | error fault =>
          rcases AccessKind.ofName_eq_error.mp hword with ⟨hunknown, rfl⟩
          simp [record, Allocation.extend, hword, Except.toOption]
      | ok access =>
          simp [takeWeights_eq, Allocation.extend, Allocation.addWeights_eq, hword, Except.toOption]

theorem addAll_eq (d : AllocationDraft) (clauses : List AllocationClause) :
    d.addAll clauses =
      ⟨clauses.foldl Allocation.extend d.allocation,
        d.fault?.or (clauses.flatMap AllocationClause.faults).head?⟩ := by
  unfold addAll
  induction clauses generalizing d with
  | nil => simp
  | cons c rest ih =>
      rw [List.foldl_cons, ih, add_eq, List.flatMap_cons, List.head?_append, Option.or_assoc]
      rfl

theorem finish_eq (resourceClass : String) (clauses : List AllocationClause) :
    ((start resourceClass).addAll clauses).finish =
      Allocation.ofClauses resourceClass clauses := by
  have hclass := Allocation.resourceClass_collected resourceClass clauses
  unfold Allocation.collected at hclass
  rw [addAll_eq, finish, Allocation.ofClauses, Allocation.applyAll_eq]
  cases clauses.flatMap AllocationClause.faults with
  | nil =>
      dsimp only [start, orFirst, List.head?_nil]
      rw [hclass]
      rfl
  | cons fault later => rfl

end AllocationDraft

/-!
# Constraints
-/

namespace Allocation

variable {resourceClass : String} {clauses : List AllocationClause}

/-- The constraint is what the clauses say. -/
structure Describes (resourceClass : String) (clauses : List AllocationClause)
    (a : Allocation) : Prop where
  named : a.resourceClass = resourceClass
  retains : a.retain = clauses.flatMap AllocationClause.retained
  excludes : a.exclude = clauses.flatMap AllocationClause.excluded
  tracks : a.track = (clauses.filterMap AllocationClause.window?).getLast?.getD 0
  weighs : ∀ access use, (a.weights access).get use =
    UseWeights.lastWritten? use (clauses.flatMap (AllocationClause.written access))

def firstOverlap? (clauses : List AllocationClause) : Option Primitive :=
  (clauses.flatMap AllocationClause.retained).find? fun p =>
    (clauses.flatMap AllocationClause.excluded).any fun q => p.sameUpToSpelling q

/-- What becomes of clauses: the first fault of an item, else the first resource that is
retained and excluded, else the constraint that the clauses describe. -/
inductive Outcome (resourceClass : String) (clauses : List AllocationClause) :
    Except Refusal Allocation → Prop where
  | unsuitable {fault : ArgumentFault}
      (hfirst : (clauses.flatMap AllocationClause.faults).head? = some fault) :
      Outcome resourceClass clauses (.error (.argument fault))
  | overlapping {p : Primitive} (hsuitable : clauses.flatMap AllocationClause.faults = [])
      (hfirst : firstOverlap? clauses = some p) :
      Outcome resourceClass clauses
        (.error (.structural (.retainedAndExcluded resourceClass p)))
  | described {a : Allocation} (hsuitable : clauses.flatMap AllocationClause.faults = [])
      (hapart : firstOverlap? clauses = none) (ha : a.Describes resourceClass clauses) :
      Outcome resourceClass clauses (.ok a)

theorem filter_listed {list : AllocationClause → List Primitive}
    (hlist : ∀ c, c.faults = [] → (list c).filter (fun p => p.kind = .mode) = list c)
    (h : clauses.flatMap AllocationClause.faults = []) :
    (clauses.flatMap list).filter (fun p => p.kind = .mode) = clauses.flatMap list := by
  rw [List.filter_flatMap]
  apply List.flatMap_congr
  intro c hc
  exact hlist c (List.flatMap_eq_nil_iff.mp h c hc)

theorem describes_collected (resourceClass : String)
    (h : clauses.flatMap AllocationClause.faults = []) :
    (collected resourceClass clauses).Describes resourceClass clauses := by
  have hretained := filter_listed (fun _ => AllocationClause.filter_retained) h
  have hexcluded := filter_listed (fun _ => AllocationClause.filter_excluded) h
  rw [collected, extendAll_eq, hretained, hexcluded]
  refine ⟨rfl, rfl, rfl, rfl, ?_⟩
  intro access use
  have hwritten := UseWeights.get_setAll {} use
    (clauses.flatMap (AllocationClause.written access))
  rw [UseWeights.get_empty, Option.or_none] at hwritten
  cases access with
  | read => exact hwritten
  | write => exact hwritten

theorem Describes.overlap?_eq {a : Allocation} (h : a.Describes resourceClass clauses) :
    a.overlap? = firstOverlap? clauses := by
  have hcomm (p : Primitive) :
      (fun q : Primitive => q.sameUpToSpelling p) = fun q => p.sameUpToSpelling q :=
    funext fun q => Primitive.sameUpToSpelling_comm q p
  unfold overlap? firstOverlap?
  simp only [h.retains, h.excludes, hcomm]

theorem ofClauses_of_fault {fault : ArgumentFault}
    (hfirst : (clauses.flatMap AllocationClause.faults).head? = some fault) :
    ofClauses resourceClass clauses = .error (.argument fault) := by
  rw [ofClauses, applyAll_eq]
  cases hfaults : clauses.flatMap AllocationClause.faults with
  | nil =>
      rw [hfaults] at hfirst
      cases hfirst
  | cons first later =>
      rw [hfaults] at hfirst
      cases hfirst
      rfl

theorem ofClauses_of_overlap {p : Primitive}
    (hsuitable : clauses.flatMap AllocationClause.faults = [])
    (hoverlap : (collected resourceClass clauses).overlap? = some p) :
    ofClauses resourceClass clauses =
      .error (.structural (.retainedAndExcluded resourceClass p)) := by
  unfold collected at hoverlap
  simp only [ofClauses, applyAll_eq, hsuitable, orFirst, hoverlap]

theorem ofClauses_of_apart (hsuitable : clauses.flatMap AllocationClause.faults = [])
    (hapart : (collected resourceClass clauses).overlap? = none) :
    ofClauses resourceClass clauses = .ok (collected resourceClass clauses) := by
  unfold collected at hapart
  simp only [ofClauses, applyAll_eq, hsuitable, orFirst, hapart]
  rfl

/-- Clauses are answered with their first fault, with a resource that is both retained and
excluded, or with the constraint that they describe, whether the first fault is reported
at once or at the end. -/
theorem outcome_of_clauses (resourceClass : String) (clauses : List AllocationClause) :
    Outcome resourceClass clauses (ofClauses resourceClass clauses) ∧
      ((AllocationDraft.start resourceClass).addAll clauses).finish =
        ofClauses resourceClass clauses := by
  refine ⟨?_, AllocationDraft.finish_eq resourceClass clauses⟩
  cases hfaults : clauses.flatMap AllocationClause.faults with
  | cons fault later =>
      have hfirst : (clauses.flatMap AllocationClause.faults).head? = some fault := by
        rw [hfaults]
        rfl
      rw [ofClauses_of_fault hfirst]
      exact .unsuitable hfirst
  | nil =>
      have hdescribes := describes_collected resourceClass hfaults
      cases hfirst : firstOverlap? clauses with
      | some p =>
          rw [ofClauses_of_overlap hfaults (hdescribes.overlap?_eq.trans hfirst)]
          exact .overlapping hfaults hfirst
      | none =>
          rw [ofClauses_of_apart hfaults (hdescribes.overlap?_eq.trans hfirst)]
          exact .described hfaults hfirst hdescribes

end Allocation
end Stimulus
