import Mathlib.Data.List.Nodup
import Stimulus.Proofs.ModelNames
import Stimulus.Proofs.Resources
import Stimulus.Proofs.ScopeOrigins
import Stimulus.Proofs.SealedBlocks

/-!
# Allocations of sequences

## One constraint

The clauses of a constraint name modes only, and no resource is retained and excluded,
however it is spelled in the two places.

## Sequences

A constraint scope is opened in a sequence only, and a constraint is added only while
one is open.  What has been added stays when the scope is closed, so that opening it
again adds to the same list.
-/

namespace Stimulus

open Checked

/-!
# Clauses
-/

namespace Allocation

variable {a a' : Allocation}

theorem checkModes_eq_ok {use : ModeUse} {resources : List Primitive} {u : Unit} :
    checkModes use resources = .ok u ↔ ∀ p ∈ resources, p.kind = .mode := by
  induction resources with
  | nil =>
      simp [checkModes]
  | cons p rest ih =>
      rw [checkModes, List.forall_mem_cons]
      by_cases hmode : p.kind = .mode
      · rw [if_pos hmode, ih]
        simp [hmode]
      · rw [if_neg hmode]
        simp [hmode]

structure NamesModes (a : Allocation) : Prop where
  retained : ∀ p ∈ a.retain, p.kind = .mode
  excluded : ∀ p ∈ a.exclude, p.kind = .mode

theorem NamesModes.apply (ha : a.NamesModes) {clause : AllocationClause}
    (h : a.apply clause = .ok a') : a'.NamesModes ∧ a'.resourceClass = a.resourceClass := by
  have hweights : ∀ access weights,
      (a.addWeights access weights).NamesModes ∧
        (a.addWeights access weights).resourceClass = a.resourceClass := by
    intro access weights
    cases access <;> exact ⟨⟨ha.retained, ha.excluded⟩, rfl⟩
  cases clause with
  | retain resources =>
      rcases bind_eq_ok.mp h with ⟨_, hmodes, hvalue⟩
      cases hvalue
      refine ⟨⟨?_, ha.excluded⟩, rfl⟩
      exact List.forall_mem_append.mpr ⟨ha.retained, checkModes_eq_ok.mp hmodes⟩
  | exclude resources =>
      rcases bind_eq_ok.mp h with ⟨_, hmodes, hvalue⟩
      cases hvalue
      refine ⟨⟨ha.retained, ?_⟩, rfl⟩
      exact List.forall_mem_append.mpr ⟨ha.excluded, checkModes_eq_ok.mp hmodes⟩
  | track window =>
      cases h
      exact ⟨⟨ha.retained, ha.excluded⟩, rfl⟩
  | weights access weights =>
      cases h
      exact hweights access weights
  | namedWeights word named =>
      rcases bind_eq_ok.mp h with ⟨access, _, hrest⟩
      rcases bind_eq_ok.mp hrest with ⟨weights, _, hvalue⟩
      cases hvalue
      exact hweights access weights

theorem NamesModes.applyAll (ha : a.NamesModes) {clauses : List AllocationClause}
    (h : a.applyAll clauses = .ok a') : a'.NamesModes ∧ a'.resourceClass = a.resourceClass := by
  induction clauses generalizing a with
  | nil =>
      cases h
      exact ⟨ha, rfl⟩
  | cons clause rest ih =>
      rcases bind_eq_ok.mp h with ⟨next, hnext, hrest⟩
      rcases ha.apply hnext with ⟨hmodes, hclass⟩
      rcases ih hmodes hrest with ⟨hmodes', hclass'⟩
      exact ⟨hmodes', hclass'.trans hclass⟩

theorem overlap?_eq_none :
    a.overlap? = none ↔ ∀ p ∈ a.retain, ∀ q ∈ a.exclude, p.sameUpToSpelling q = false := by
  unfold overlap?
  rw [List.find?_eq_none]
  constructor
  · intro h p hp q hq
    rw [Primitive.sameUpToSpelling_comm, Bool.eq_false_iff]
    intro hsame
    exact h p hp (List.any_eq_true.mpr ⟨q, hq, hsame⟩)
  · intro h p hp hoverlap
    rcases List.any_eq_true.mp hoverlap with ⟨q, hq, hsame⟩
    rw [Primitive.sameUpToSpelling_comm, h p hp q hq] at hsame
    cases hsame

/-- What an allocation of a build has to be: its class names a mode of the model, its
resources are modes, and those that it retains are not those that it excludes. -/
structure Valid (model : Model) (a : Allocation) : Prop where
  listed : ∃ mode arity, model.Lists .mode mode arity ∧
    Key.ofName mode = Key.ofName a.resourceClass
  resources : a.NamesModes
  apart : ∀ p ∈ a.retain, ∀ q ∈ a.exclude, p.sameUpToSpelling q = false

theorem valid_ofClauses {model : Model} (hmodel : model.Keyed) {resourceClass : String}
    {clauses : List AllocationClause} (h : ofClauses resourceClass clauses = .ok a)
    (hclass : (model.find? .mode a.resourceClass).isSome = true) : a.Valid model := by
  rcases Option.isSome_iff_exists.mp hclass with ⟨entry, hentry⟩
  have hkey := (hmodel .mode _ entry hentry).right
  unfold ofClauses at h
  split at h
  · cases h
  · rename_i built hbuilt
    split at h
    · cases h
    · rename_i hoverlap
      cases h
      have hempty : NamesModes ⟨resourceClass, [], [], 0, {}, {}⟩ :=
        ⟨by simp, by simp⟩
      exact ⟨⟨entry.name, entry.arity, hmodel.lists hentry, hkey⟩,
        (hempty.applyAll hbuilt).left, overlap?_eq_none.mp hoverlap⟩

theorem covers_eq_false {name : String} :
    a.covers name = false ↔ Key.ofName a.resourceClass ≠ Key.ofName name := by
  simp [covers]

end Allocation

/-!
# Blocks
-/

/-- What holds of the allocations of every block: only sequences have some, each of them
is valid, and no class is constrained twice. -/
structure BlockHead.Allocates (model : Model) (head : BlockHead) : Prop where
  sequence : head.allocations ≠ [] → head.kind.isSequence = true
  valid : ∀ a ∈ head.allocations, a.Valid model
  distinct : (head.allocations.map fun a => Key.ofName a.resourceClass).Nodup

namespace BlockHead

variable {model : Model} {head head' : BlockHead}

theorem allocates_nil (h : head.allocations = []) : head.Allocates model where
  sequence hsome := absurd h hsome
  valid a ha := by
    rw [h] at ha
    cases ha
  distinct := by
    rw [h]
    exact List.nodup_nil

theorem Allocates.congr (h : head.Allocates model) (hkind : head'.kind = head.kind)
    (hallocations : head'.allocations = head.allocations) : head'.Allocates model where
  sequence := by
    rw [hallocations, hkind]
    exact h.sequence
  valid := by
    rw [hallocations]
    exact h.valid
  distinct := by
    rw [hallocations]
    exact h.distinct

theorem Allocates.add (h : head.Allocates model) {a : Allocation}
    (hsequence : head.kind.isSequence = true) (ha : a.Valid model)
    (hnew : ∀ other ∈ head.allocations, other.covers a.resourceClass = false) :
    Allocates model { head with allocations := head.allocations ++ [a] } where
  sequence _ := hsequence
  valid := by
    intro other hother
    rcases List.mem_append.mp hother with hold | hlast
    · exact h.valid other hold
    · rw [List.mem_singleton.mp hlast]
      exact ha
  distinct := by
    rw [List.map_append, List.map_cons, List.map_nil, ← List.concat_eq_append]
    apply List.Nodup.concat _ h.distinct
    intro hmem
    rcases List.mem_map.mp hmem with ⟨other, hother, hkey⟩
    exact Allocation.covers_eq_false.mp (hnew other hother) hkey

end BlockHead

/-!
# Scopes
-/

structure Scope.Allocates (model : Model) (s : Scope) : Prop where
  constraining : s.constraining = true → s.head.kind.isSequence = true
  head : s.head.Allocates model

theorem Scope.Origin.allocates {c : Context} {s : Scope} (h : s.Origin c)
    (hmodel : c.model.Keyed) (hscopes : ∀ s ∈ c.allScopes, s.Allocates c.model) :
    s.Allocates c.model := by
  have htop := hscopes c.top c.top_mem
  cases h with
  | kept hs => exact hscopes _ hs
  | reserved => exact ⟨htop.constraining, htop.head⟩
  | opened kind requested => exact ⟨by simp [nested], BlockHead.allocates_nil rfl⟩
  | closed _ houter _ =>
      have hsame := hscopes _ houter
      exact ⟨hsame.constraining, hsame.head⟩
  | covered _ => exact ⟨htop.constraining, htop.head.congr rfl rfl⟩
  | constraining hsequence => exact ⟨hsequence, htop.head⟩
  | constrained hconstraining hclauses hscope =>
      rcases Scope.constrain_eq_ok.mp hscope with ⟨hclass, hnew, rfl⟩
      have hsequence := htop.constraining hconstraining
      have hvalid := Allocation.valid_ofClauses hmodel hclauses hclass
      exact ⟨fun _ => hsequence, htop.head.add hsequence hvalid hnew⟩
  | called _ => exact ⟨htop.constraining, htop.head⟩
  | attached _ => exact ⟨htop.constraining, htop.head⟩
  | placed _ _ => exact ⟨htop.constraining, htop.head⟩
  | accessed stream part => exact ⟨htop.constraining, htop.head⟩

/-!
# Sealed templates
-/

section

variable {name modelName : String} {entries : List ModelEntry} {options : Options}
variable {comments : CommentTokens} {commands : List Command} {t : SealedTemplate}

theorem Context.run_allocates {model : Model} (hmodel : model.Keyed) (name : String)
    (options : Options) (comments : CommentTokens) (commands : List Command) :
    ∀ s ∈ ((start name model options comments).run commands).allScopes,
      ∀ b ∈ s.block.allBlocks, b.head.Allocates model := by
  apply run_blocks (R := Scope.Allocates model) (P := fun b => b.head.Allocates model)
  · exact fun s hs => hs.head
  · intro p
    exact ⟨by simp [Scope.phaseRoot], BlockHead.allocates_nil rfl⟩
  · intro c hsame hscopes s horigin
    rw [← hsame] at hmodel hscopes ⊢
    exact horigin.allocates hmodel hscopes

/-- In every template that a build seals to, the allocations of all blocks are sound. -/
theorem allocates_of_seal
    (h : ((Context.start name (.ofEntries modelName entries) options comments).run
      commands).seal = .ok t) :
    ∀ b ∈ t.blocks, b.head.Allocates (.ofEntries modelName entries) := by
  have hmodel := Model.keyed_ofEntries modelName entries
  intro b hb
  rcases Context.built_or_access_of_seal h hb with ⟨s, hs, e, he, rfl⟩ | ⟨a, _, hba⟩
  · exact Context.run_allocates hmodel name options comments commands s hs e he
  · apply BlockHead.allocates_nil
    rw [(Node.block.inj hba).left]

end

def SampleBuild.withAllocations : List Command :=
  let resource (name : String) (index : Int64) : Primitive :=
    ⟨.mode, name, [.primitive .mode name [.concrete index]]⟩
  SampleBuild.commands ++
    [.openConstraint, .openBlock .sequence {}, .constrain "reg" [], .openConstraint,
      .constrain "Reg" [.retain [resource "reg" 1], .exclude [resource "REG" 1]],
      .constrain "Reg" [.retain [resource "reg" 1], .exclude [resource "REG" 2]],
      .openBlock .plain {}, .openConstraint, .constrain "reg" [], .closeBlock, .closeConstraint,
      .openConstraint, .constrain "REG" [], .constrain "add" [],
      .constrain "reg" [.exclude [⟨.instruction, "reg", []⟩]], .closeConstraint, .closeBlock]

theorem allocates_of_seal_sample :
    ∃ t, (SampleBuild.start.run SampleBuild.withAllocations).seal = .ok t ∧
      (t.blocks.map fun b => b.head.allocations.map fun a =>
        (a.resourceClass, a.retain.length, a.exclude.length)) =
          [[], [], [("REG", 0, 0)], [], [("Reg", 1, 1)], [], []] ∧
      ∀ b ∈ t.blocks, b.head.Allocates SampleBuild.model := by
  have hclasses : ((SampleBuild.start.run SampleBuild.withAllocations).seal.toOption.map
      fun t => t.blocks.map fun b => b.head.allocations.map fun a =>
        (a.resourceClass, a.retain.length, a.exclude.length)) =
      some [[], [], [("REG", 0, 0)], [], [("Reg", 1, 1)], [], []] := by
    decide +kernel
  rcases Option.map_eq_some_iff.mp hclasses with ⟨t, hsome, hallocations⟩
  have ht := toOption_eq_some.mp hsome
  exact ⟨t, ht, hallocations, allocates_of_seal ht⟩

end Stimulus
