import Stimulus.Proofs.BuildLog
import Stimulus.Proofs.Unrolling

/-!
# Names of a model

## Canonical names

The entry of a model under a name has the name's key, whatever was defined again, so
that looking its own name up leads to it once more.

## Patterns

The patterns of a preparator are registered under canonical names and with as many
operands as these take.  Filling the holes changes neither, so that a pattern fits the
model exactly as the calls do that come from it.
-/

namespace Stimulus

open Checked

/-!
# Models
-/

namespace Model

variable {m : Model} {kind : PrimitiveKind} {name : String} {arity : Nat} {entry : ModelEntry}

def Keyed (m : Model) : Prop :=
  ∀ kind key entry, m.atKey? kind key = some entry →
    entry.kind = kind ∧ Key.ofName entry.name = key

theorem Keyed.define (h : m.Keyed) (entry : ModelEntry) : (m.define entry).Keyed := by
  intro kind key found hfound
  unfold atKey? Model.define at hfound
  rw [OrderedMap.get?_insert] at hfound
  split at hfound
  · rename_i hkey
    cases hkey
    cases hfound
    exact ⟨rfl, rfl⟩
  · exact h kind key found hfound

theorem keyed_ofEntries (name : String) (entries : List ModelEntry) :
    (ofEntries name entries).Keyed := by
  have hdefined : ∀ m : Model, m.Keyed → (entries.foldl Model.define m).Keyed := by
    induction entries with
    | nil =>
        intro m hm
        exact hm
    | cons entry rest ih =>
        intro m hm
        exact ih (m.define entry) (hm.define entry)
  apply hdefined
  intro kind key entry hfound
  cases hfound

/-- The name is the canonical one of a primitive that takes `arity` arguments. -/
def Lists (m : Model) (kind : PrimitiveKind) (name : String) (arity : Nat) : Prop :=
  m.find? kind name = some ⟨kind, name, arity⟩

instance (m : Model) (kind : PrimitiveKind) (name : String) (arity : Nat) :
    Decidable (m.Lists kind name arity) :=
  inferInstanceAs (Decidable (_ = _))

theorem Keyed.lists (h : m.Keyed) (hentry : m.find? kind name = some entry) :
    m.Lists kind entry.name entry.arity := by
  rcases h kind _ entry hentry with ⟨hkind, hkey⟩
  unfold Lists find?
  rw [hkey, ← hkind]
  rw [← hkind] at hentry
  exact hentry

theorem Keyed.lists_resolve (h : m.Keyed) {count : Nat}
    (hentry : m.resolve kind name count = .ok entry) : m.Lists kind entry.name count := by
  rcases resolve_eq_ok.mp hentry with ⟨hfind, harity⟩
  rw [← harity]
  exact h.lists hfind

end Model

/-- The primitive calls an instruction of the model under its canonical name, and with
as many arguments as it takes. -/
def Primitive.IsCallOf (model : Model) (p : Primitive) : Prop :=
  p.kind = .instruction ∧ model.Lists .instruction p.name p.args.length

/-!
# Patterns
-/

namespace CallPattern

variable {ρ : Type} {model : Model}

def Fits (model : Model) (c : CallPattern ρ) : Prop :=
  model.Lists .instruction c.mnemonic c.operands.length

theorem fits_canonical (hmodel : model.Keyed) {c c' : CallPattern ρ}
    (h : c.canonical model = .ok c') : c'.Fits model := by
  rcases bind_eq_ok.mp h with ⟨entry, hentry, hvalue⟩
  cases hvalue
  exact hmodel.lists_resolve hentry

theorem fits_canonicalAll (hmodel : model.Keyed) {patterns patterns' : List (CallPattern ρ)}
    (h : canonicalAll model patterns = .ok patterns') : ∀ c ∈ patterns', c.Fits model := by
  induction patterns generalizing patterns' with
  | nil =>
      cases h
      intro c hc
      cases hc
  | cons first rest ih =>
      rcases bind_eq_ok.mp h with ⟨first', hfirst, hothers⟩
      rcases bind_eq_ok.mp hothers with ⟨rest', hrest, hvalue⟩
      cases hvalue
      exact List.forall_mem_cons.mpr ⟨fits_canonical hmodel hfirst, ih hrest⟩

theorem length_fillAll {fill : ρ → Except ArgumentFault Argument} {operands : List (Operand ρ)}
    {args : List Argument} (h : fillAll fill operands = .ok args) :
    args.length = operands.length := by
  induction operands generalizing args with
  | nil =>
      cases h
      rfl
  | cons operand rest ih =>
      rcases bind_eq_ok.mp h with ⟨argument, _, hothers⟩
      rcases bind_eq_ok.mp hothers with ⟨others, hrest, hvalue⟩
      cases hvalue
      rw [List.length_cons, List.length_cons, ih hrest]

theorem Fits.instantiate {fill : ρ → Except ArgumentFault Argument} {c : CallPattern ρ}
    {p : Primitive} (hc : c.Fits model) (h : c.instantiate fill = .ok p) :
    p.IsCallOf model := by
  rcases bind_eq_ok.mp h with ⟨args, hargs, hvalue⟩
  cases hvalue
  refine ⟨rfl, ?_⟩
  rw [length_fillAll hargs]
  exact hc

theorem isCallOf_instantiateAll {fill : ρ → Except ArgumentFault Argument}
    {patterns : List (CallPattern ρ)} {calls : List Primitive}
    (hpatterns : ∀ c ∈ patterns, c.Fits model) (h : instantiateAll fill patterns = .ok calls) :
    ∀ p ∈ calls, p.IsCallOf model := by
  induction patterns generalizing calls with
  | nil =>
      cases h
      intro p hp
      cases hp
  | cons c rest ih =>
      rcases List.forall_mem_cons.mp hpatterns with ⟨hc, hrest⟩
      rcases bind_eq_ok.mp h with ⟨call, hcall, hlater⟩
      rcases bind_eq_ok.mp hlater with ⟨others, hothers, hvalue⟩
      cases hvalue
      exact List.forall_mem_cons.mpr ⟨hc.instantiate hcall, ih hrest hothers⟩

theorem Fits.subst {c : CallPattern ρ} (hc : c.Fits model) (value : ρ → Argument) :
    (c.subst value).IsCallOf model := by
  refine ⟨rfl, ?_⟩
  rw [CallPattern.subst, List.length_map]
  exact hc

end CallPattern

/-!
# Preparators
-/

theorem StreamPreparator.fits_canonical {model : Model} (hmodel : model.Keyed)
    {p p' : StreamPreparator} (h : p.canonical model = .ok p') (part : StreamPart) :
    ∀ c ∈ p'.part part, c.Fits model := by
  unfold canonical at h
  dsimp only at h
  split at h
  · cases h
  · split at h
    · cases h
    · rcases bind_eq_ok.mp h with ⟨init, hinit, hrest⟩
      rcases bind_eq_ok.mp hrest with ⟨read, hread, hrest⟩
      rcases bind_eq_ok.mp hrest with ⟨write, hwrite, hvalue⟩
      cases hvalue
      cases part with
      | init => exact CallPattern.fits_canonicalAll hmodel hinit
      | read => exact CallPattern.fits_canonicalAll hmodel hread
      | write => exact CallPattern.fits_canonicalAll hmodel hwrite

namespace RegisterPreparator

variable {model : Model} {p p' : RegisterPreparator}

structure Fits (model : Model) (p : RegisterPreparator) : Prop where
  target : ∃ arity, model.Lists .mode p.target arity
  calls : ∀ c ∈ p.calls, c.Fits model

theorem fits_canonical (hmodel : model.Keyed) (h : p.canonical model = .ok p') :
    p'.Fits model := by
  unfold canonical at h
  split at h
  · cases h
  · rename_i entry hentry
    rcases bind_eq_ok.mp h with ⟨calls, hcalls, hvalue⟩
    cases hvalue
    exact ⟨⟨entry.arity, hmodel.lists hentry⟩, CallPattern.fits_canonicalAll hmodel hcalls⟩

theorem Fits.instantiate (hp : p.Fits model) {target : Primitive} {value : UInt64}
    {calls : List Primitive} (h : p.instantiate target value = .ok calls) :
    ∀ q ∈ calls, q.IsCallOf model := by
  unfold RegisterPreparator.instantiate at h
  split at h
  · exact CallPattern.isCallOf_instantiateAll hp.calls h
  · cases h

end RegisterPreparator

/-!
# Stores of register preparators
-/

theorem RegisterGroup.mem_toList_insert {g : RegisterGroup} {p q : RegisterPreparator}
    (h : q ∈ (g.insert p).toList) : q = p ∨ q ∈ g.toList := by
  unfold insert at h
  split at h
  · rcases List.mem_append.mp h with hdefault | hvariant
    · exact Or.inl (List.mem_singleton.mp hdefault)
    · exact Or.inr (List.mem_append_right _ hvariant)
  · rcases List.mem_append.mp h with hdefault | hvariant
    · exact Or.inr (List.mem_append_left _ hdefault)
    · rcases OrderedMap.mem_values_insert hvariant with hnew | hold
      · exact Or.inl hnew
      · exact Or.inr (List.mem_append_right _ hold)

theorem RegisterStore.mem_toList_of_group {s : RegisterStore} {target : String}
    {q : RegisterPreparator} (h : q ∈ (s.group target).toList) : q ∈ s.toList := by
  unfold group at h
  cases hgroup : s.get? (Key.ofName target) with
  | none =>
      rw [hgroup] at h
      cases h
  | some g =>
      rw [hgroup] at h
      exact List.mem_flatMap.mpr ⟨g, OrderedMap.mem_values_of_get? hgroup, h⟩

theorem RegisterStore.mem_toList_register {s : RegisterStore} {p q : RegisterPreparator}
    (h : q ∈ (s.register p).toList) : q = p ∨ q ∈ s.toList := by
  rcases List.mem_flatMap.mp h with ⟨g, hg, hq⟩
  rcases OrderedMap.mem_values_insert hg with rfl | hold
  · rcases RegisterGroup.mem_toList_insert hq with hnew | hgroup
    · exact Or.inl hnew
    · exact Or.inr (mem_toList_of_group hgroup)
  · exact Or.inr (List.mem_flatMap.mpr ⟨g, hold, hq⟩)

end Stimulus
