import Stimulus.Proofs.Occurrences
import Stimulus.Proofs.SealedBindings
import Stimulus.Proofs.SealedBlocks

/-!
# Placeholders of calls and of resources

## Where placeholders stand

In a sealed template a placeholder can stand in the arguments of a call, or in those of a
resource that an allocation retains or excludes, at any depth.

## What sealing binds

Sealing visits the calls alone.  It binds every placeholder that stands in a call, and no
other one, so that the placeholders of a resource stay without a binding unless they
stand in a call too.
-/

namespace Stimulus

open Checked

/-!
# Uses
-/

theorem CallSite.mem_uses_iff {p : Placeholder} (s : CallSite) :
    p ∈ s.uses.map PlaceholderUse.placeholder ↔ p.OccursIn s.call.primitive.args := by
  rw [Primitive.occursIn_iff]
  constructor
  · intro h
    rcases List.mem_map.mp h with ⟨u, hu, rfl⟩
    rcases List.mem_filterMap.mp hu with ⟨⟨argument, owner⟩, hslot, huse⟩
    cases argument with
    | placeholder id =>
        cases huse
        exact ⟨owner, hslot⟩
    | _ => cases huse
  · intro h
    rcases h with ⟨owner, howner⟩
    exact List.mem_map.mpr ⟨⟨s, owner, p⟩, List.mem_filterMap.mpr ⟨_, howner, rfl⟩, rfl⟩

/-!
# Calls of blocks and call sites
-/

section

variable {α : Type} {b : Block α} {c : Call}

mutual

theorem Node.callSites_of_called : ∀ (n : Node α) (path : List BlockHead),
    b ∈ n.allBlocks → c ∈ b.calls → ∃ s ∈ n.callSites path, s.call = c
  | .block head children, path => by
      intro hb hc
      rcases List.mem_cons.mp hb with rfl | hinner
      · rcases List.mem_filterMap.mp hc with ⟨n, hn, hcall⟩
        cases n with
        | call own =>
            cases hcall
            refine ⟨⟨c, head :: path⟩, ?_, rfl⟩
            rw [Node.callSites, Node.callSitesOf_eq]
            exact List.mem_flatMap.mpr ⟨_, hn, List.mem_singleton_self _⟩
        | _ => cases hcall
      · exact Node.callSitesOf_of_called children (head :: path) hinner hc
  | .call _, _ | .label _, _ | .output _, _ | .directive _, _ | .access _, _ => by
      intro hb
      cases hb

theorem Node.callSitesOf_of_called : ∀ (children : List (Node α)) (path : List BlockHead),
    b ∈ Node.allBlocksOf children → c ∈ b.calls → ∃ s ∈ Node.callSitesOf path children, s.call = c
  | [], _ => by
      intro hb
      cases hb
  | n :: rest, path => by
      intro hb hc
      rw [Node.callSitesOf]
      rcases List.mem_append.mp hb with hfirst | hrest
      · rcases Node.callSites_of_called n path hfirst hc with ⟨s, hs, hcall⟩
        exact ⟨s, List.mem_append_left _ hs, hcall⟩
      · rcases Node.callSitesOf_of_called rest path hrest hc with ⟨s, hs, hcall⟩
        exact ⟨s, List.mem_append_right _ hs, hcall⟩

end

end

namespace SealedTemplate

theorem called_iff (t : SealedTemplate) (c : Call) :
    (∃ s ∈ t.callSites, s.call = c) ↔ ∃ b ∈ t.blocks, c ∈ b.calls := by
  constructor
  · intro h
    rcases h with ⟨s, hs, rfl⟩
    exact t.called_of_callSites hs
  · intro h
    rcases h with ⟨b, hb, hc⟩
    rcases List.mem_flatMap.mp hb with ⟨root, hroot, hblock⟩
    rcases Node.callSites_of_called root.toNode [] hblock hc with ⟨s, hs, hcall⟩
    exact ⟨s, List.mem_flatMap.mpr ⟨root, hroot, hs⟩, hcall⟩

/-!
# What is bound
-/

/-- The placeholder stands in a call of the trees. -/
def InCalls (t : SealedTemplate) (p : Placeholder) : Prop :=
  ∃ b ∈ t.blocks, ∃ c ∈ b.calls, p.OccursIn c.primitive.args

/-- The placeholder stands in a resource that an allocation of a block retains or
excludes. -/
def InResources (t : SealedTemplate) (p : Placeholder) : Prop :=
  ∃ b ∈ t.blocks, ∃ a ∈ b.head.allocations, ∃ resource ∈ a.retain ++ a.exclude,
    p.OccursIn resource.args

/-- Every placeholder of the trees is bound. -/
def LeavesNoneUnbound (t : SealedTemplate) : Prop :=
  ∀ p, t.InCalls p ∨ t.InResources p → t.bindings.binds p = true

theorem inCalls_iff (t : SealedTemplate) (p : Placeholder) :
    t.InCalls p ↔ p ∈ t.uses.map PlaceholderUse.placeholder := by
  have huses : p ∈ t.uses.map PlaceholderUse.placeholder ↔
      ∃ s ∈ t.callSites, p.OccursIn s.call.primitive.args := by
    unfold uses Block.allUses
    rw [List.map_flatMap, List.mem_flatMap]
    simp only [CallSite.mem_uses_iff]
    rfl
  rw [huses]
  constructor
  · intro h
    rcases h with ⟨b, hb, c, hc, hp⟩
    rcases (t.called_iff c).mpr ⟨b, hb, hc⟩ with ⟨s, hs, rfl⟩
    exact ⟨s, hs, hp⟩
  · intro h
    rcases h with ⟨s, hs, hp⟩
    rcases t.called_of_callSites hs with ⟨b, hb, hc⟩
    exact ⟨b, hb, s.call, hc, hp⟩

end SealedTemplate

/-- Sealing binds the placeholders that stand in calls, and no others. -/
theorem binds_iff_inCalls_of_seal {c : Context} {t : SealedTemplate} (h : c.seal = .ok t) :
    ∀ p, t.bindings.binds p = true ↔ t.InCalls p := by
  intro p
  rcases Context.seal_eq_ok.mp h with ⟨_, _, phases, bindings, _, hbindings, ht⟩
  rcases Sources.resolve_eq_ok.mp hbindings with ⟨st, hst, hsame⟩
  have hbinds := (BindingState.Binds.start _).steps hst
  rw [List.nil_append] at hbinds
  subst hsame ht
  rw [SealedTemplate.inCalls_iff]
  exact hbinds.binds_iff p

theorem binds_iff_inCalls_of_seal_sample :
    ∃ t, (SampleBuild.start.run SampleBuild.commands).seal = .ok t ∧
      t.bindings.unknowns.keys = [1, 2] ∧ t.bindings.lazies.keys = [0] ∧
      ∀ p, t.bindings.binds p = true ↔ t.InCalls p := by
  have hkeys : ((SampleBuild.start.run SampleBuild.commands).seal.toOption.map
      fun t => (t.bindings.unknowns.keys, t.bindings.lazies.keys)) = some ([1, 2], [0]) := by
    decide +kernel
  rcases Option.map_eq_some_iff.mp hkeys with ⟨t, hsome, hpair⟩
  have ht := toOption_eq_some.mp hsome
  rw [Prod.mk.injEq] at hpair
  exact ⟨t, ht, hpair.left, hpair.right, binds_iff_inCalls_of_seal ht⟩

def SampleBuild.retaining : List Command :=
  [.lazy "nowhere", .value .mode "reg" [.placeholder (.lazy 0)], .openBlock .sequence {},
    .openConstraint, .constrain "reg" [.retain [⟨.mode, "reg", [.placeholder (.lazy 0)]⟩]],
    .closeConstraint, .closeBlock]

theorem not_leavesNoneUnbound_retaining :
    ∃ t, (SampleBuild.start.run SampleBuild.retaining).seal = .ok t ∧
      t.InResources (.lazy 0) ∧ t.bindings.binds (.lazy 0) = false ∧ ¬ t.LeavesNoneUnbound := by
  have hparts : ((SampleBuild.start.run SampleBuild.retaining).seal.toOption.map fun t =>
      (t.blocks.flatMap fun b => b.head.allocations.flatMap Allocation.retain,
        t.bindings.binds (.lazy 0))) =
          some ([⟨.mode, "reg", [.placeholder (.lazy 0)]⟩], false) := by
    decide +kernel
  rcases Option.map_eq_some_iff.mp hparts with ⟨t, hsome, hpair⟩
  rw [Prod.mk.injEq] at hpair
  rcases hpair with ⟨hretained, hunbound⟩
  have hresource : t.InResources (.lazy 0) := by
    have hmem : (⟨.mode, "reg", [.placeholder (.lazy 0)]⟩ : Primitive) ∈
        t.blocks.flatMap fun b => b.head.allocations.flatMap Allocation.retain := by
      rw [hretained]
      exact List.mem_singleton_self _
    rcases List.mem_flatMap.mp hmem with ⟨b, hb, hinner⟩
    rcases List.mem_flatMap.mp hinner with ⟨a, ha, hretain⟩
    exact ⟨b, hb, a, ha, _, List.mem_append_left _ hretain, .here (List.mem_singleton_self _)⟩
  refine ⟨t, toOption_eq_some.mp hsome, hresource, hunbound, ?_⟩
  intro hall
  rw [hall (.lazy 0) (Or.inr hresource)] at hunbound
  cases hunbound

end Stimulus
