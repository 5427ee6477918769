import Mathlib.Data.List.Forall2
import Stimulus.Proofs.AllocationClauses
import Stimulus.Proofs.Keys
import Stimulus.Proofs.Resources

/-!
# Resources in different spellings

## One resource

To denote the same resource is to be respelled alike, and what is respelled already stays
as it is.  So every primitive is the same resource as its respelling, and sameness is an
equivalence.

## Retained and excluded

Clauses overlap if they retain and exclude one resource.  How its names are spelled in
either list does not matter, nor which of the lists is which.
-/

namespace Stimulus

/-!
# Respelling
-/

mutual

theorem Argument.respelled_respelled : ∀ a : Argument, a.respelled.respelled = a.respelled
  | .primitive kind name args => by
      have hargs := Argument.respelledAll_respelledAll args
      simp only [respelled, Key.ofName_text, hargs]
  | .concrete _ | .random _ | .placeholder _ => rfl

theorem Argument.respelledAll_respelledAll : ∀ args : List Argument,
    Argument.respelledAll (Argument.respelledAll args) = Argument.respelledAll args
  | [] => rfl
  | a :: rest => by
      have hfirst := Argument.respelled_respelled a
      have hrest := Argument.respelledAll_respelledAll rest
      simp only [Argument.respelledAll, hfirst, hrest]

end

namespace Primitive

theorem respelled_respelled (p : Primitive) : p.respelled.respelled = p.respelled := by
  simp only [respelled, Key.ofName_text, Argument.respelledAll_respelledAll]

/-- One resource in two spellings. -/
def SameResource (p q : Primitive) : Prop :=
  p.sameUpToSpelling q = true

theorem sameResource_iff {p q : Primitive} : p.SameResource q ↔ p.respelled = q.respelled :=
  sameUpToSpelling_iff_respelled

theorem sameResource_equivalence : Equivalence SameResource where
  refl _ := sameResource_iff.mpr rfl
  symm h := sameResource_iff.mpr (sameResource_iff.mp h).symm
  trans h h' := sameResource_iff.mpr ((sameResource_iff.mp h).trans (sameResource_iff.mp h'))

theorem sameResource_respelled (p : Primitive) : p.SameResource p.respelled :=
  sameResource_iff.mpr p.respelled_respelled.symm

theorem map_respelled_of_same {resources resources' : List Primitive}
    (h : List.Forall₂ SameResource resources resources') :
    resources.map respelled = resources'.map respelled := by
  induction h with
  | nil =>
      rfl
  | cons hfirst _ ih =>
      rw [List.map_cons, List.map_cons, sameResource_iff.mp hfirst, ih]

def Shared (ps qs : List Primitive) : Prop :=
  ∃ p ∈ ps, ∃ q ∈ qs, p.SameResource q

theorem shared_iff {ps qs : List Primitive} :
    Shared ps qs ↔ ∃ r, r ∈ ps.map respelled ∧ r ∈ qs.map respelled := by
  constructor
  · intro h
    rcases h with ⟨p, hp, q, hq, hsame⟩
    refine ⟨p.respelled, List.mem_map_of_mem hp, ?_⟩
    rw [sameResource_iff.mp hsame]
    exact List.mem_map_of_mem hq
  · intro h
    rcases h with ⟨r, hps, hqs⟩
    rcases List.mem_map.mp hps with ⟨p, hp, rfl⟩
    rcases List.mem_map.mp hqs with ⟨q, hq, hsame⟩
    exact ⟨p, hp, q, hq, sameResource_iff.mpr hsame.symm⟩

theorem shared_comm {ps qs : List Primitive} : Shared ps qs ↔ Shared qs ps := by
  rw [shared_iff, shared_iff, exists_congr fun _ => and_comm]

end Primitive

/-!
# Clauses
-/

namespace AllocationClause

inductive Respelled : AllocationClause → AllocationClause → Prop where
  | retain {resources resources' : List Primitive}
      (h : List.Forall₂ Primitive.SameResource resources resources') :
      Respelled (.retain resources) (.retain resources')
  | exclude {resources resources' : List Primitive}
      (h : List.Forall₂ Primitive.SameResource resources resources') :
      Respelled (.exclude resources) (.exclude resources')
  | same (c : AllocationClause) : Respelled c c

def swapped : AllocationClause → AllocationClause
  | retain resources => exclude resources
  | exclude resources => retain resources
  | c => c

variable {c c' : AllocationClause}

theorem Respelled.retained (h : c.Respelled c') :
    c.retained.map Primitive.respelled = c'.retained.map Primitive.respelled := by
  cases h with
  | retain h => exact Primitive.map_respelled_of_same h
  | exclude h => rfl
  | same => rfl

theorem Respelled.excluded (h : c.Respelled c') :
    c.excluded.map Primitive.respelled = c'.excluded.map Primitive.respelled := by
  cases h with
  | retain h => rfl
  | exclude h => exact Primitive.map_respelled_of_same h
  | same => rfl

theorem modeFaults_eq_nil {use : ModeUse} {resources : List Primitive} :
    modeFaults use resources = [] ↔
      ∀ kind ∈ (resources.map Primitive.respelled).map Primitive.kind, kind = .mode := by
  unfold modeFaults
  rw [List.map_eq_nil_iff, List.filter_eq_nil_iff]
  simp [Primitive.respelled]

theorem Respelled.suitable (h : c.Respelled c') : c.faults = [] ↔ c'.faults = [] := by
  cases h with
  | retain h =>
      rw [faults, faults, modeFaults_eq_nil, modeFaults_eq_nil, Primitive.map_respelled_of_same h]
  | exclude h =>
      rw [faults, faults, modeFaults_eq_nil, modeFaults_eq_nil, Primitive.map_respelled_of_same h]
  | same => rfl

theorem retained_swapped (c : AllocationClause) : c.swapped.retained = c.excluded := by
  cases c <;> rfl

theorem excluded_swapped (c : AllocationClause) : c.swapped.excluded = c.retained := by
  cases c <;> rfl

theorem suitable_swapped (c : AllocationClause) : c.swapped.faults = [] ↔ c.faults = [] := by
  cases c with
  | retain resources => exact modeFaults_eq_nil.trans modeFaults_eq_nil.symm
  | exclude resources => exact modeFaults_eq_nil.trans modeFaults_eq_nil.symm
  | _ => rfl

end AllocationClause

/-!
# Overlaps
-/

namespace Allocation

variable {resourceClass : String} {clauses clauses' : List AllocationClause}

theorem overlap?_isSome (a : Allocation) :
    a.overlap?.isSome = true ↔ Primitive.Shared a.retain a.exclude := by
  rw [Option.isSome_iff_ne_none, Ne, overlap?_eq_none]
  simp [Primitive.Shared, Primitive.SameResource]

/-- The clauses are refused because they retain and exclude some resource. -/
def Overlaps (resourceClass : String) (clauses : List AllocationClause) : Prop :=
  ∃ resource, ofClauses resourceClass clauses =
    .error (.structural (.retainedAndExcluded resourceClass resource))

theorem overlaps_iff :
    Overlaps resourceClass clauses ↔
      clauses.flatMap AllocationClause.faults = [] ∧
        Primitive.Shared (clauses.flatMap AllocationClause.retained)
          (clauses.flatMap AllocationClause.excluded) := by
  unfold Overlaps
  cases hfaults : clauses.flatMap AllocationClause.faults with
  | cons fault later =>
      have hfirst : (clauses.flatMap AllocationClause.faults).head? = some fault := by
        rw [hfaults]
        rfl
      rw [ofClauses_of_fault hfirst]
      simp
  | nil =>
      have hdescribes := describes_collected resourceClass hfaults
      rw [← hdescribes.retains, ← hdescribes.excludes, ← overlap?_isSome]
      cases hoverlap : (collected resourceClass clauses).overlap? with
      | none =>
          rw [ofClauses_of_apart hfaults hoverlap]
          simp
      | some p =>
          rw [ofClauses_of_overlap hfaults hoverlap]
          simp

/-!
# Other spellings, other roles
-/

theorem respelled_flatMap {listed : AllocationClause → List Primitive}
    (hlisted : ∀ c c', c.Respelled c' →
      (listed c).map Primitive.respelled = (listed c').map Primitive.respelled)
    (h : List.Forall₂ AllocationClause.Respelled clauses clauses') :
    (clauses.flatMap listed).map Primitive.respelled =
      (clauses'.flatMap listed).map Primitive.respelled := by
  induction h with
  | nil =>
      rfl
  | cons hfirst _ ih =>
      rw [List.flatMap_cons, List.flatMap_cons, List.map_append, List.map_append,
        hlisted _ _ hfirst, ih]

theorem suitable_respelled (h : List.Forall₂ AllocationClause.Respelled clauses clauses') :
    clauses.flatMap AllocationClause.faults = [] ↔
      clauses'.flatMap AllocationClause.faults = [] := by
  induction h with
  | nil =>
      rfl
  | cons hfirst _ ih =>
      rw [List.flatMap_cons, List.flatMap_cons, List.append_eq_nil_iff, List.append_eq_nil_iff,
        hfirst.suitable, ih]

theorem overlaps_respelled (h : List.Forall₂ AllocationClause.Respelled clauses clauses') :
    Overlaps resourceClass clauses ↔ Overlaps resourceClass clauses' := by
  have hretained := respelled_flatMap (fun _ _ => AllocationClause.Respelled.retained) h
  have hexcluded := respelled_flatMap (fun _ _ => AllocationClause.Respelled.excluded) h
  rw [overlaps_iff, overlaps_iff, suitable_respelled h, Primitive.shared_iff,
    Primitive.shared_iff, hretained, hexcluded]

theorem overlaps_swapped (resourceClass : String) (clauses : List AllocationClause) :
    Overlaps resourceClass (clauses.map AllocationClause.swapped) ↔
      Overlaps resourceClass clauses := by
  have hsuitable : (clauses.map AllocationClause.swapped).flatMap AllocationClause.faults = [] ↔
      clauses.flatMap AllocationClause.faults = [] := by
    simp only [List.flatMap_eq_nil_iff, List.forall_mem_map, AllocationClause.suitable_swapped]
  rw [overlaps_iff, overlaps_iff, hsuitable, List.flatMap_map, List.flatMap_map]
  simp only [AllocationClause.retained_swapped, AllocationClause.excluded_swapped]
  rw [Primitive.shared_comm]

/-- Resources are identified up to the spellings of the names in them, by themselves and
where clauses retain and exclude them. -/
structure IdentifiesSpellings (resourceClass : String) : Prop where
  same_iff : ∀ p q : Primitive, p.sameUpToSpelling q = true ↔ p.respelled = q.respelled
  equivalence : Equivalence fun p q : Primitive => p.sameUpToSpelling q = true
  of_eq : ∀ p q : Primitive, p = q → p.sameUpToSpelling q = true
  respelled : ∀ p : Primitive, p.sameUpToSpelling p.respelled = true
  overlaps : ∀ clauses, Overlaps resourceClass clauses ↔
    clauses.flatMap AllocationClause.faults = [] ∧
      ∃ p ∈ clauses.flatMap AllocationClause.retained,
        ∃ q ∈ clauses.flatMap AllocationClause.excluded, p.sameUpToSpelling q = true
  respells : ∀ clauses clauses', List.Forall₂ AllocationClause.Respelled clauses clauses' →
    (Overlaps resourceClass clauses ↔ Overlaps resourceClass clauses')
  swaps : ∀ clauses, Overlaps resourceClass (clauses.map AllocationClause.swapped) ↔
    Overlaps resourceClass clauses

/-- Sameness of resources is equality up to spelling, and nothing else decides whether
clauses overlap. -/
theorem identifiesSpellings (resourceClass : String) : IdentifiesSpellings resourceClass where
  same_iff _ _ := Primitive.sameUpToSpelling_iff_respelled
  equivalence := Primitive.sameResource_equivalence
  of_eq p _ h := h ▸ Primitive.sameResource_equivalence.refl p
  respelled := Primitive.sameResource_respelled
  overlaps _ := overlaps_iff
  respells _ _ := overlaps_respelled
  swaps := overlaps_swapped resourceClass

end Allocation
end Stimulus
