import Stimulus.Proofs.BindingPass
import Stimulus.Proofs.History
import Stimulus.Proofs.Sealing

/-!
# Bindings of a sealed template

## First uses

The bindings list the placeholders of the sealed trees by first use.  An unknown
gets the producer that its first use calls for, and a reference gets the place of
its label as seen from the block that issued it.

## Repeated placeholders

A placeholder that stands at several positions stands in expansions only.
-/

namespace Stimulus

open Checked

/-- Who produces an unknown whose first use is `u`: the situation that governs the
call; else the allocator of the mode that owns the argument; else the default test
data, if the options allow it. -/
inductive Produces (options : Options) (u : PlaceholderUse) : Producer → Prop where
  | situation {s : Situation} (hsituation : u.site.situation? = some s) :
      Produces options u (.situation s.name)
  | allocation {constrained : Bool} (hsituation : u.site.situation? = none)
      (howner : u.owner.kind = .mode)
      (hconstrained : constrained = true ↔
        ∃ head ∈ u.site.path, ∃ a ∈ head.allocations, a.covers u.owner.name = true) :
      Produces options u (.allocation u.owner.name constrained)
  | defaultTestData (hsituation : u.site.situation? = none) (howner : u.owner.kind ≠ .mode)
      (hoption : options.defaultTestData = true) :
      Produces options u .defaultTestData

theorem produces_of_producer {sources : Sources} {u : PlaceholderUse} {found : Producer}
    (h : sources.producer u.site.visited u.owner u.placeholder = .ok found) :
    Produces sources.options u found := by
  unfold Sources.producer at h
  split at h
  · rename_i s hsituation
    cases h
    exact .situation hsituation
  · rename_i hsituation
    split at h
    · rename_i howner
      cases h
      refine .allocation hsituation howner ?_
      rw [CallSite.covers_visited]
      simp [CallSite.constrains]
    · rename_i howner
      split at h
      · rename_i hoption
        cases h
        exact .defaultTestData hsituation howner hoption
      · cases h

theorem resolved_eq_ok {sources : Sources} {v : VisitedCall} {index : Nat}
    {found : ResolvedLabel} :
    sources.resolved v index = .ok found ↔
      ∃ request, sources.requests[index]? = some request ∧ found.label = request.label ∧
        sources.labels.resolve request.label request.origin = .ok found.place := by
  unfold Sources.resolved
  cases hrequest : sources.requests[index]? with
  | none =>
      simp
  | some request =>
      simp only [bind_eq_ok, pure_eq_ok, Option.some.injEq, exists_eq_left']
      constructor
      · intro hparts
        rcases hparts with ⟨place, hplace, hfound⟩
        rw [hfound]
        exact ⟨rfl, hplace⟩
      · intro hparts
        rcases hparts with ⟨hlabel, hplace⟩
        exact ⟨found.place, hplace, by rw [← hlabel]⟩

theorem Sources.resolve_eq_ok {sources : Sources} {blocks : List (Block Empty)}
    {bindings : Bindings} :
    sources.resolve blocks = .ok bindings ↔
      ∃ st, ({} : BindingState).bindUses sources (Block.allUses blocks) = .ok st ∧
        bindings = st.bindings := by
  rw [Sources.resolve_eq_bindSites, BindingState.bindSites_eq]
  simp only [bind_eq_ok, pure_eq_ok]
  rfl

/-- How the bindings of `t` follow from its trees and from the commands that built it. -/
structure BoundByUse (c : Context) (commands : List Command) (t : SealedTemplate) : Prop where
  reported : Event.callsWithin [] t.replay = t.callSites.map CallSite.reported
  unknowns : t.bindings.unknowns.keys =
    (t.uses.filterMap PlaceholderUse.unknown?).eraseDups
  lazies : t.bindings.lazies.keys = (t.uses.filterMap PlaceholderUse.lazy?).eraseDups
  repeated : ∀ p, 1 < (t.uses.map PlaceholderUse.placeholder).count p →
    ∀ u ∈ t.uses, u.placeholder = p → u.site.inExpansion = true
  producer : ∀ index u, (t.uses.find? fun u => u.unknown? == some index) = some u →
    ∃ found, t.bindings.unknowns.get? index = some found ∧ Produces t.options u found
  place : ∀ u ∈ t.uses, ∀ index, u.placeholder = .lazy index →
    ∃ found origin, t.bindings.lazies.get? index = some found ∧
      c.IssuesLazy commands index found.label origin ∧
      t.labels.resolve found.label origin = .ok found.place

section

variable {name : String} {model : Model} {options : Options} {comments : CommentTokens}
variable {commands : List Command} {t : SealedTemplate}

/-- The bindings of every build that seals follow from first uses. -/
theorem boundByUse_of_seal
    (h : ((Context.start name model options comments).run commands).seal = .ok t) :
    BoundByUse (Context.start name model options comments) commands t := by
  rcases Context.seal_eq_ok.mp h with ⟨_, _, phases, bindings, _, hbindings, ht⟩
  rcases Sources.resolve_eq_ok.mp hbindings with ⟨st, hst, hsame⟩
  have hbinds := (BindingState.Binds.start _).steps hst
  rw [List.nil_append] at hbinds
  subst hsame ht
  refine
    { reported := SealedTemplate.callsWithin_replay _
      unknowns := hbinds.unknowns.keys
      lazies := hbinds.lazies.keys
      repeated := ?_
      producer := ?_
      place := ?_ }
  · intro p hp u hu hplaceholder
    apply hbinds.shares.expanded u hu
    rw [hplaceholder]
    exact hbinds.shares.repeated p hp
  · intro index u hu
    rcases hbinds.unknowns.value index u hu with ⟨found, hfound, hproducer⟩
    exact ⟨found, hfound, produces_of_producer hproducer⟩
  · intro u hu index hplaceholder
    have hlazy := PlaceholderUse.lazy?_eq_some.mpr hplaceholder
    have hsome : (BindingState.firstUse? PlaceholderUse.lazy? (Block.allUses phases.toList)
        index).isSome = true := by
      rw [BindingState.firstUse?, List.find?_isSome]
      exact ⟨u, hu, by simpa using hlazy⟩
    rcases Option.isSome_iff_exists.mp hsome with ⟨first, hfirst⟩
    rcases hbinds.lazies.value index first hfirst with ⟨found, hfound, other, hother, hresolved⟩
    have hindex : first.lazy? = some index := by
      simpa using List.find?_some hfirst
    rw [hindex] at hother
    cases hother
    rcases resolved_eq_ok.mp hresolved with ⟨request, hrequest, hlabel, hplace⟩
    refine ⟨found, request.origin, hfound, ?_, ?_⟩
    · rw [hlabel]
      exact (Context.issuesLazy_iff rfl).mpr hrequest
    · rw [hlabel]
      exact hplace

end

theorem boundByUse_of_seal_sample :
    ∃ t, (SampleBuild.start.run (SampleBuild.commands ++ [.readStream "table"])).seal = .ok t ∧
      t.bindings.unknowns.keys = [1, 2, 0] ∧ t.bindings.lazies.keys = [0] ∧
      BoundByUse SampleBuild.start (SampleBuild.commands ++ [.readStream "table"]) t := by
  have hkeys :
      ((SampleBuild.start.run (SampleBuild.commands ++ [.readStream "table"])).seal.toOption.map
        fun t => (t.bindings.unknowns.keys, t.bindings.lazies.keys)) =
          some ([1, 2, 0], [0]) := by
    decide +kernel
  rcases Option.map_eq_some_iff.mp hkeys with ⟨t, hsome, hpair⟩
  have ht := toOption_eq_some.mp hsome
  rw [Prod.mk.injEq] at hpair
  exact ⟨t, ht, hpair.left, hpair.right, boundByUse_of_seal ht⟩

end Stimulus
