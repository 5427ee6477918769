import Stimulus.Proofs.Checked
import Stimulus.Proofs.Insertions
import Stimulus.Proofs.Visits

/-!
# The binding pass

## One use at a time

The pass binds the uses of a list of trees in their order.  What it does with
one use depends on whether the placeholder is bound already.

## What the pass has done

`Binds` says what the state of the pass knows about the uses that lie behind it.
A step of the pass preserves it, so it holds of the whole pass.
-/

namespace Stimulus

open Checked

namespace BindingState

variable {sources : Sources} {st st' : BindingState}

/-!
# The pass as a fold over uses
-/

def bindUse (sources : Sources) (st : BindingState) (u : PlaceholderUse) :
    Except StructureFault BindingState :=
  st.bind sources u.site.visited u.owner u.placeholder

def bindUses (sources : Sources) (st : BindingState) (uses : List PlaceholderUse) :
    Except StructureFault BindingState :=
  uses.foldlM (bindUse sources) st

@[simp]
theorem bindUses_nil : st.bindUses sources [] = .ok st :=
  rfl

theorem bindUses_cons (u : PlaceholderUse) (rest : List PlaceholderUse) :
    st.bindUses sources (u :: rest) =
      (st.bindUse sources u >>= fun next => next.bindUses sources rest) :=
  rfl

theorem bindUses_append (front back : List PlaceholderUse) :
    st.bindUses sources (front ++ back) =
      (st.bindUses sources front >>= fun next => next.bindUses sources back) := by
  simp [bindUses, List.foldlM_append]

theorem bindSlots_eq (site : CallSite) (slots : List Slot) (st : BindingState) :
    st.bindSlots sources site.visited slots = st.bindUses sources (slots.filterMap site.useAt?) := by
  induction slots generalizing st with
  | nil =>
      rfl
  | cons slot rest ih =>
      rcases slot with ⟨argument, owner⟩
      cases argument with
      | placeholder placeholder =>
          have huse : site.useAt? ⟨.placeholder placeholder, owner⟩ =
              some ⟨site, owner, placeholder⟩ := rfl
          rw [List.filterMap_cons_some huse, bindUses_cons, bindSlots]
          simp only [ih]
          rfl
      | _ =>
          rw [List.filterMap_cons_none rfl, ← ih]
          rfl

theorem bindSites_eq (sites : List CallSite) (st : BindingState) :
    st.bindSites sources sites = st.bindUses sources (sites.flatMap CallSite.uses) := by
  induction sites generalizing st with
  | nil =>
      rfl
  | cons site rest ih =>
      rw [List.flatMap_cons, bindUses_append, bindSites, bindCall, bindSlots_eq]
      simp only [ih]
      rfl

/-!
# One use
-/

theorem bind_bound {u : PlaceholderUse} (hbound : st.bindings.binds u.placeholder = true) :
    st.bindUse sources u = .ok st' ↔
      u.site.inExpansion = true ∧ u.placeholder ∈ st.shared ∧ st' = st := by
  unfold bindUse bind
  rw [if_pos hbound, CallSite.inExpansion_visited]
  by_cases hshared : u.site.inExpansion = true ∧ u.placeholder ∈ st.shared
  · simp [hshared, eq_comm]
  · rw [if_neg (by simpa using hshared)]
    constructor
    · intro h
      cases h
    · intro h
      exact absurd ⟨h.left, h.right.left⟩ hshared

theorem bind_unknown {u : PlaceholderUse} {index : Nat} (hu : u.placeholder = .unknown index)
    (hfresh : ¬ st.bindings.binds u.placeholder = true) :
    st.bindUse sources u = .ok st' ↔
      ∃ found, sources.producer u.site.visited u.owner u.placeholder = .ok found ∧
        st' = st.record u.site.visited u.placeholder
          { st.bindings with unknowns := st.bindings.unknowns.insert index found } := by
  unfold bindUse bind
  rw [if_neg hfresh, hu]
  simp only [bind_eq_ok, pure_eq_ok]

theorem bind_lazy {u : PlaceholderUse} {index : Nat} (hu : u.placeholder = .lazy index)
    (hfresh : ¬ st.bindings.binds u.placeholder = true) :
    st.bindUse sources u = .ok st' ↔
      ∃ found, sources.resolved u.site.visited index = .ok found ∧
        st' = st.record u.site.visited u.placeholder
          { st.bindings with lazies := st.bindings.lazies.insert index found } := by
  unfold bindUse bind
  rw [if_neg hfresh, hu]
  simp only [bind_eq_ok, pure_eq_ok]

/-!
# First uses
-/

theorem mem_unknowns {uses : List PlaceholderUse} {index : Nat} :
    index ∈ uses.filterMap PlaceholderUse.unknown? ↔
      .unknown index ∈ uses.map PlaceholderUse.placeholder := by
  simp [PlaceholderUse.unknown?_eq_some]

theorem mem_lazies {uses : List PlaceholderUse} {index : Nat} :
    index ∈ uses.filterMap PlaceholderUse.lazy? ↔
      .lazy index ∈ uses.map PlaceholderUse.placeholder := by
  simp [PlaceholderUse.lazy?_eq_some]

/-!
# Shared placeholders

A placeholder is shared if its first use lies in an expansion.
-/

structure Shares (uses : List PlaceholderUse) (st : BindingState) : Prop where
  used : ∀ p ∈ st.shared, p ∈ uses.map PlaceholderUse.placeholder
  expanded : ∀ u ∈ uses, u.placeholder ∈ st.shared → u.site.inExpansion = true
  repeated : ∀ p, 1 < (uses.map PlaceholderUse.placeholder).count p → p ∈ st.shared

namespace Shares

variable {uses : List PlaceholderUse} {u : PlaceholderUse}

theorem again (h : Shares uses st) (hexpansion : u.site.inExpansion = true)
    (hshared : u.placeholder ∈ st.shared) : Shares (uses ++ [u]) st where
  used p hp := by
    rw [List.map_append]
    exact List.mem_append_left _ (h.used p hp)
  expanded v hv hp := by
    rcases List.mem_append.mp hv with hold | hnew
    · exact h.expanded v hold hp
    · rw [List.mem_singleton.mp hnew]
      exact hexpansion
  repeated p hp := by
    by_cases hsame : u.placeholder = p
    · rw [← hsame]
      exact hshared
    · apply h.repeated
      simpa [hsame] using hp

theorem first (h : Shares uses st) (bindings : Bindings)
    (hfresh : u.placeholder ∉ uses.map PlaceholderUse.placeholder) :
    Shares (uses ++ [u]) (st.record u.site.visited u.placeholder bindings) where
  used p hp := by
    rw [List.map_append, List.mem_append]
    unfold record at hp
    split at hp
    · rcases List.mem_cons.mp hp with hsame | hold
      · exact Or.inr (by simp [hsame])
      · exact Or.inl (h.used p hold)
    · exact Or.inl (h.used p hp)
  expanded v hv hp := by
    rcases List.mem_append.mp hv with hold | hnew
    · have hne : v.placeholder ≠ u.placeholder := by
        intro hsame
        exact hfresh (hsame ▸ List.mem_map_of_mem hold)
      apply h.expanded v hold
      unfold record at hp
      split at hp
      · simpa [hne] using hp
      · exact hp
    · rw [List.mem_singleton.mp hnew] at hp ⊢
      unfold record at hp
      split at hp
      · assumption
      · exact absurd (h.used _ hp) hfresh
  repeated p hp := by
    have hold : 1 < (uses.map PlaceholderUse.placeholder).count p := by
      by_cases hsame : u.placeholder = p
      · rw [hsame] at hfresh
        simp [List.count_eq_zero_of_not_mem hfresh, hsame] at hp
      · simpa [hsame] using hp
    unfold record
    split
    · exact List.mem_cons_of_mem _ (h.repeated p hold)
    · exact h.repeated p hold

end Shares

/-!
# Bound placeholders

Either map of the bindings lists its placeholders by first use, and binds each of
them to a value that suits the first use.
-/

def firstUse? (index? : PlaceholderUse → Option Nat) (uses : List PlaceholderUse)
    (index : Nat) : Option PlaceholderUse :=
  uses.find? fun u => index? u == some index

structure BindsFirst {ν : Type} (index? : PlaceholderUse → Option Nat)
    (Suits : PlaceholderUse → ν → Prop) (uses : List PlaceholderUse) (m : OrderedMap Nat ν) :
    Prop where
  keys : m.keys = (uses.filterMap index?).eraseDups
  value : ∀ index u, firstUse? index? uses index = some u →
    ∃ found, m.get? index = some found ∧ Suits u found

namespace BindsFirst

variable {ν : Type} {index? : PlaceholderUse → Option Nat}
variable {Suits : PlaceholderUse → ν → Prop} {uses : List PlaceholderUse}
variable {m : OrderedMap Nat ν} {u : PlaceholderUse}

theorem firstUse?_concat_old {index : Nat}
    (hold : index? u = some index → index ∈ uses.filterMap index?) :
    firstUse? index? (uses ++ [u]) index = firstUse? index? uses index := by
  unfold firstUse?
  rw [List.find?_append]
  cases hfind : uses.find? fun v => index? v == some index with
  | some v =>
      rfl
  | none =>
      have hne : index? u ≠ some index := by
        intro hsame
        rcases List.mem_filterMap.mp (hold hsame) with ⟨v, hv, hindex⟩
        exact absurd hindex (by simpa using List.find?_eq_none.mp hfind v hv)
      simp [hne]

theorem firstUse?_concat_new {index : Nat} (hu : index? u = some index)
    (hfresh : index ∉ uses.filterMap index?) :
    firstUse? index? (uses ++ [u]) index = some u := by
  unfold firstUse?
  have hnone : (uses.find? fun v => index? v == some index) = none := by
    apply List.find?_eq_none.mpr
    intro v hv hsame
    exact hfresh (List.mem_filterMap.mpr ⟨v, hv, by simpa using hsame⟩)
  rw [List.find?_append, hnone]
  simp [hu]

theorem again (h : BindsFirst index? Suits uses m)
    (hold : ∀ index, index? u = some index → index ∈ uses.filterMap index?) :
    BindsFirst index? Suits (uses ++ [u]) m where
  keys := by
    rw [h.keys, List.filterMap_append]
    cases hu : index? u with
    | none =>
        simp [hu]
    | some index =>
        rw [List.filterMap_cons_some hu, List.filterMap_nil, eraseDups_concat,
          if_pos (hold index hu)]
  value index v hv := by
    rw [firstUse?_concat_old (hold index)] at hv
    exact h.value index v hv

theorem first (h : BindsFirst index? Suits uses m) {index : Nat} {found : ν}
    (hu : index? u = some index) (hfresh : index ∉ uses.filterMap index?)
    (hfound : Suits u found) :
    BindsFirst index? Suits (uses ++ [u]) (m.insert index found) where
  keys := by
    rw [OrderedMap.keys_insert, h.keys, List.filterMap_append, List.filterMap_cons_some hu,
      List.filterMap_nil, eraseDups_concat, if_neg hfresh, if_neg]
    rw [List.mem_eraseDups]
    exact hfresh
  value other v hv := by
    rw [OrderedMap.get?_insert]
    by_cases hsame : index = other
    · rw [← hsame, firstUse?_concat_new hu hfresh] at hv
      cases hv
      exact ⟨found, by rw [if_pos hsame], hfound⟩
    · have hold : index? u = some other → other ∈ uses.filterMap index? := by
        intro hother
        rw [hu] at hother
        exact absurd (Option.some.inj hother) hsame
      rw [firstUse?_concat_old hold] at hv
      rw [if_neg hsame]
      exact h.value other v hv

theorem suits (h : BindsFirst index? Suits uses m) {index : Nat} {found : ν}
    (hfound : m.get? index = some found) : ∃ u, index? u = some index ∧ Suits u found := by
  have hkey : index ∈ uses.filterMap index? := by
    rw [← List.mem_eraseDups, ← h.keys, ← OrderedMap.contains_iff, OrderedMap.contains, hfound]
    rfl
  rcases List.mem_filterMap.mp hkey with ⟨v, hv, hindex⟩
  have hsome : (firstUse? index? uses index).isSome = true := by
    rw [firstUse?, List.find?_isSome]
    exact ⟨v, hv, by simpa using hindex⟩
  rcases Option.isSome_iff_exists.mp hsome with ⟨u, hu⟩
  rcases h.value index u hu with ⟨other, hother, hsuits⟩
  rw [hfound] at hother
  cases hother
  exact ⟨u, by simpa using List.find?_some hu, hsuits⟩

end BindsFirst

/-!
# The whole pass
-/

def ProducedBy (sources : Sources) (u : PlaceholderUse) (found : Producer) : Prop :=
  sources.producer u.site.visited u.owner u.placeholder = .ok found

def ResolvedTo (sources : Sources) (u : PlaceholderUse) (found : ResolvedLabel) : Prop :=
  ∃ index, u.lazy? = some index ∧ sources.resolved u.site.visited index = .ok found

/-- What the state of the pass knows about the uses that lie behind it. -/
structure Binds (sources : Sources) (uses : List PlaceholderUse) (st : BindingState) :
    Prop where
  shares : Shares uses st
  unknowns :
    BindsFirst PlaceholderUse.unknown? (ProducedBy sources) uses st.bindings.unknowns
  lazies : BindsFirst PlaceholderUse.lazy? (ResolvedTo sources) uses st.bindings.lazies

namespace Binds

variable {uses : List PlaceholderUse} {u : PlaceholderUse}

theorem start (sources : Sources) : Binds sources [] {} where
  shares := ⟨by simp, by simp, by simp⟩
  unknowns := ⟨rfl, by simp [firstUse?]⟩
  lazies := ⟨rfl, by simp [firstUse?]⟩

theorem binds_iff (h : Binds sources uses st) (p : Placeholder) :
    st.bindings.binds p = true ↔ p ∈ uses.map PlaceholderUse.placeholder := by
  cases p with
  | unknown index =>
      rw [Bindings.binds, OrderedMap.contains_iff, h.unknowns.keys, List.mem_eraseDups,
        mem_unknowns]
  | lazy index =>
      rw [Bindings.binds, OrderedMap.contains_iff, h.lazies.keys, List.mem_eraseDups,
        mem_lazies]

theorem stepBound (h : Binds sources uses st)
    (hbound : st.bindings.binds u.placeholder = true) (hstep : st.bindUse sources u = .ok st') :
    Binds sources (uses ++ [u]) st' := by
  rcases (bind_bound hbound).mp hstep with ⟨hexpansion, hshared, hnext⟩
  rw [hnext]
  have hold := (h.binds_iff _).mp hbound
  refine ⟨h.shares.again hexpansion hshared, h.unknowns.again ?_, h.lazies.again ?_⟩
  · intro index hindex
    rw [mem_unknowns, ← PlaceholderUse.unknown?_eq_some.mp hindex]
    exact hold
  · intro index hindex
    rw [mem_lazies, ← PlaceholderUse.lazy?_eq_some.mp hindex]
    exact hold

theorem stepFresh (h : Binds sources uses st)
    (hfresh : ¬ st.bindings.binds u.placeholder = true)
    (hstep : st.bindUse sources u = .ok st') : Binds sources (uses ++ [u]) st' := by
  have hnew : u.placeholder ∉ uses.map PlaceholderUse.placeholder := by
    rw [← h.binds_iff]
    exact hfresh
  cases hu : u.placeholder with
  | unknown index =>
      rcases (bind_unknown hu hfresh).mp hstep with ⟨found, hfound, hnext⟩
      rw [hnext]
      have hunknown := PlaceholderUse.unknown?_eq_some.mpr hu
      refine ⟨h.shares.first _ hnew, h.unknowns.first hunknown ?_ hfound, h.lazies.again ?_⟩
      · rw [mem_unknowns, ← hu]
        exact hnew
      · intro other hother
        rw [PlaceholderUse.lazy?_eq_some, hu] at hother
        cases hother
  | lazy index =>
      rcases (bind_lazy hu hfresh).mp hstep with ⟨found, hfound, hnext⟩
      rw [hnext]
      have hlazy := PlaceholderUse.lazy?_eq_some.mpr hu
      refine ⟨h.shares.first _ hnew, h.unknowns.again ?_,
        h.lazies.first hlazy ?_ ⟨index, hlazy, hfound⟩⟩
      · intro other hother
        rw [PlaceholderUse.unknown?_eq_some, hu] at hother
        cases hother
      · rw [mem_lazies, ← hu]
        exact hnew

theorem step (h : Binds sources uses st) (hstep : st.bindUse sources u = .ok st') :
    Binds sources (uses ++ [u]) st' := by
  by_cases hbound : st.bindings.binds u.placeholder = true
  · exact h.stepBound hbound hstep
  · exact h.stepFresh hbound hstep

theorem steps (h : Binds sources uses st) {rest : List PlaceholderUse}
    (hrest : st.bindUses sources rest = .ok st') : Binds sources (uses ++ rest) st' := by
  induction rest generalizing uses st with
  | nil =>
      cases hrest
      simpa using h
  | cons u rest ih =>
      rcases bind_eq_ok.mp hrest with ⟨next, hstep, hlater⟩
      have hnext := ih (h.step hstep) hlater
      simpa using hnext

end Binds

end BindingState
end Stimulus
