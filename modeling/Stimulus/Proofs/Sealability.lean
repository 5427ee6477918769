import Stimulus.Proofs.SealedBindings
import Stimulus.Proofs.StreamExpansion

/-!
# Builds that seal

## Conditions

A build can be sealed when nothing is open, every accessed stream has a place to
start, and every placeholder of its trees has something to be bound to.

## Completeness

Where no placeholder is repeated, these conditions are all that sealing asks for.
-/

namespace Stimulus

open Checked

/-!
# Placeholders that can be bound
-/

theorem CallSite.situation?_isSome {s : CallSite} :
    s.situation?.isSome = true ↔
      s.call.situation.isSome = true ∨ ∃ head ∈ s.path, head.situation.isSome = true := by
  unfold situation?
  rw [Option.isSome_or, Bool.or_eq_true, List.findSome?_isSome_iff]

/-- Some producer takes the use of an unknown. -/
def PlaceholderUse.Covered (options : Options) (u : PlaceholderUse) : Prop :=
  (u.site.call.situation.isSome = true ∨
    ∃ head ∈ u.site.path, head.situation.isSome = true) ∨
  u.owner.kind = .mode ∨ options.defaultTestData = true

theorem producer_succeeds_iff {sources : Sources} {u : PlaceholderUse} :
    (∃ found, sources.producer u.site.visited u.owner u.placeholder = .ok found) ↔
      u.Covered sources.options := by
  unfold PlaceholderUse.Covered Sources.producer
  rw [← CallSite.situation?_isSome, CallSite.situation_visited]
  cases u.site.situation? with
  | some s =>
      simp
  | none =>
      by_cases howner : u.owner.kind = .mode
      · simp [howner]
      · by_cases hoption : sources.options.defaultTestData = true
        · simp [howner, hoption]
        · simp [howner, hoption]

theorem resolved_succeeds_iff {sources : Sources} {v : VisitedCall} {index : Nat} :
    (∃ found, sources.resolved v index = .ok found) ↔
      ∃ label origin place, sources.requests[index]? = some ⟨label, origin⟩ ∧
        sources.labels.resolve label origin = .ok place := by
  constructor
  · intro hparts
    rcases hparts with ⟨found, hfound⟩
    rcases resolved_eq_ok.mp hfound with ⟨⟨label, origin⟩, hrequest, _, hplace⟩
    exact ⟨label, origin, found.place, hrequest, hplace⟩
  · intro hparts
    rcases hparts with ⟨label, origin, place, hrequest, hplace⟩
    exact ⟨⟨label, place⟩, resolved_eq_ok.mpr ⟨⟨label, origin⟩, hrequest, rfl, hplace⟩⟩

namespace BindingState

variable {sources : Sources} {st : BindingState} {u : PlaceholderUse}

structure Bindable (sources : Sources) (u : PlaceholderUse) : Prop where
  unknown : ∀ index, u.placeholder = .unknown index → u.Covered sources.options
  lazy : ∀ index, u.placeholder = .lazy index →
    ∃ label origin place, sources.requests[index]? = some ⟨label, origin⟩ ∧
      sources.labels.resolve label origin = .ok place

theorem bindUse_succeeds_iff (hfresh : ¬ st.bindings.binds u.placeholder = true) :
    (∃ st', st.bindUse sources u = .ok st') ↔ Bindable sources u := by
  cases hu : u.placeholder with
  | unknown index =>
      simp only [bind_unknown hu hfresh]
      constructor
      · intro hparts
        rcases hparts with ⟨_, found, hfound, _⟩
        constructor
        · intro _ _
          exact producer_succeeds_iff.mp ⟨found, hfound⟩
        · intro other hother
          rw [hu] at hother
          cases hother
      · intro h
        rcases producer_succeeds_iff.mpr (h.unknown index hu) with ⟨found, hfound⟩
        exact ⟨_, found, hfound, rfl⟩
  | lazy index =>
      simp only [bind_lazy hu hfresh]
      constructor
      · intro hparts
        rcases hparts with ⟨_, found, hfound, _⟩
        constructor
        · intro other hother
          rw [hu] at hother
          cases hother
        · intro other hother
          rw [hu] at hother
          cases hother
          exact resolved_succeeds_iff.mp ⟨found, hfound⟩
      · intro h
        rcases resolved_succeeds_iff.mpr (h.lazy index hu) with ⟨found, hfound⟩
        exact ⟨_, found, hfound, rfl⟩

theorem bindUses_succeeds_iff {uses rest : List PlaceholderUse} (h : Binds sources uses st)
    (hnodup : ((uses ++ rest).map PlaceholderUse.placeholder).Nodup) :
    (∃ st', st.bindUses sources rest = .ok st') ↔ ∀ u ∈ rest, Bindable sources u := by
  induction rest generalizing uses st with
  | nil =>
      simp
  | cons u rest ih =>
      have hfresh : ¬ st.bindings.binds u.placeholder = true := by
        rw [h.binds_iff]
        rw [List.map_append, List.nodup_append] at hnodup
        intro hused
        exact hnodup.right.right _ hused _ List.mem_cons_self rfl
      have hlater : ((uses ++ [u] ++ rest).map PlaceholderUse.placeholder).Nodup := by
        simpa using hnodup
      rw [List.forall_mem_cons, ← bindUse_succeeds_iff hfresh]
      simp only [bindUses_cons, bind_eq_ok]
      constructor
      · intro hparts
        rcases hparts with ⟨st', next, hnext, hrest⟩
        exact ⟨⟨next, hnext⟩, (ih (h.step hnext) hlater).mp ⟨st', hrest⟩⟩
      · intro hparts
        rcases hparts with ⟨⟨next, hnext⟩, hrest⟩
        rcases (ih (h.step hnext) hlater).mpr hrest with ⟨st', hst'⟩
        exact ⟨st', next, hnext, hst'⟩

end BindingState

/-!
# Conditions
-/

namespace Context

def uses (c : Context) : List PlaceholderUse :=
  Block.allUses c.unrolled.toList

/-- What sealing asks of the run of `commands`. -/
structure Sealable (c : Context) (commands : List Command) : Prop where
  scopes : (c.run commands).scopes = []
  data : (c.run commands).data.isOpen = false
  accesses : ∀ a ∈ (c.run commands).accesses, ∀ stream, c.IssuesAccess commands a stream →
    ∃ address, c.LabelsData commands stream.label address ∧
      (stream.NeedsStart a.part → address.toNat < 2 ^ 63)
  unknowns : ∀ u ∈ (c.run commands).uses, ∀ index, u.placeholder = .unknown index →
    u.Covered (c.run commands).options
  lazies : ∀ u ∈ (c.run commands).uses, ∀ index, u.placeholder = .lazy index →
    ∃ label origin place, c.IssuesLazy commands index label origin ∧
      (c.run commands).labels.resolve label origin = .ok place

theorem seal_succeeds_iff {c : Context}
    (hnodup : (c.uses.map PlaceholderUse.placeholder).Nodup) :
    (∃ t, c.seal = .ok t) ↔
      c.scopes = [] ∧ c.data.isOpen = false ∧
        (∀ a ∈ c.accesses, a.Expandable c.streams c.labels) ∧
        ∀ u ∈ c.uses, BindingState.Bindable c.sources u := by
  have hpass : (∃ st, ({} : BindingState).bindUses c.sources c.uses = .ok st) ↔
      ∀ u ∈ c.uses, BindingState.Bindable c.sources u :=
    BindingState.bindUses_succeeds_iff (BindingState.Binds.start c.sources) hnodup
  simp only [seal_eq_ok, expandRoots_eq_ok, Sources.resolve_eq_ok, ← hpass]
  constructor
  · intro hparts
    rcases hparts with ⟨_, hscopes, hdata, _, _, ⟨haccesses, rfl⟩, ⟨st, hst, _⟩, _⟩
    exact ⟨hscopes, hdata, haccesses, st, hst⟩
  · intro hparts
    rcases hparts with ⟨hscopes, hdata, haccesses, st, hst⟩
    exact ⟨_, hscopes, hdata, _, _, ⟨haccesses, rfl⟩, ⟨st, hst, rfl⟩, rfl⟩

section

variable {name : String} {model : Model} {options : Options} {comments : CommentTokens}
variable {commands : List Command}

/-- The look-up of a stream is refused in no run, so that it is no condition. -/
theorem expandable_iff {a : StreamAccess}
    (ha : a ∈ ((start name model options comments).run commands).accesses) :
    a.Expandable ((start name model options comments).run commands).streams
        ((start name model options comments).run commands).labels ↔
      ∀ stream, (start name model options comments).IssuesAccess commands a stream →
        ∃ address,
          (start name model options comments).LabelsData commands stream.label address ∧
            (stream.NeedsStart a.part → address.toNat < 2 ^ 63) := by
  simp only [labelsData_iff_dataAddress]
  constructor
  · intro hexpandable stream hissued
    rcases hexpandable with ⟨found, hfound, hstarted⟩
    rw [get?_of_issuesAccess hissued] at hfound
    cases hfound
    exact hstarted
  · intro hstarted
    rcases issuesAccess_of_mem ha with ⟨stream, hissued⟩
    exact ⟨stream, get?_of_issuesAccess hissued, hstarted stream hissued⟩

/-- A build in which no placeholder is repeated seals exactly if it is sealable. -/
theorem seals_iff_sealable
    (hnodup : (((start name model options comments).run commands).uses.map
      PlaceholderUse.placeholder).Nodup) :
    (∃ t, ((start name model options comments).run commands).seal = .ok t) ↔
      (start name model options comments).Sealable commands := by
  rw [seal_succeeds_iff hnodup]
  have hrequests : (start name model options comments).requests = [] := rfl
  constructor
  · intro hparts
    rcases hparts with ⟨hscopes, hdata, haccesses, hbindable⟩
    refine ⟨hscopes, hdata, fun a ha => (expandable_iff ha).mp (haccesses a ha), ?_, ?_⟩
    · intro u hu index hindex
      exact (hbindable u hu).unknown index hindex
    · intro u hu index hindex
      rcases (hbindable u hu).lazy index hindex with ⟨label, origin, place, hrequest, hplace⟩
      exact ⟨label, origin, place, (issuesLazy_iff hrequests).mpr hrequest, hplace⟩
  · intro h
    refine ⟨h.scopes, h.data, fun a ha => (expandable_iff ha).mpr (h.accesses a ha), ?_⟩
    intro u hu
    refine ⟨h.unknowns u hu, ?_⟩
    intro index hindex
    rcases h.lazies u hu index hindex with ⟨label, origin, place, hissued, hplace⟩
    exact ⟨label, origin, place, (issuesLazy_iff hrequests).mp hissued, hplace⟩

end

theorem seals_iff_sealable_sample :
    ((SampleBuild.start.run SampleBuild.commands).uses.map
        PlaceholderUse.placeholder).Nodup ∧
      SampleBuild.start.Sealable SampleBuild.commands := by
  have hnodup : ((SampleBuild.start.run SampleBuild.commands).uses.map
      PlaceholderUse.placeholder).Nodup := by
    decide
  exact ⟨hnodup, (seals_iff_sealable hnodup).mp SampleBuild.seals⟩

end Context
end Stimulus
