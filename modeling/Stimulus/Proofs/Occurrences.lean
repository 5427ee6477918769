import Stimulus.Primitive.Slots

/-!
# Occurrences of placeholders

## Depth

A placeholder occurs among some arguments if it is one of them, or occurs among the
arguments of a primitive that is one of them.  These are the placeholders that a visit of
all argument positions meets.
-/

namespace Stimulus

inductive Placeholder.OccursIn (p : Placeholder) : List Argument → Prop where
  | here {args : List Argument} (h : .placeholder p ∈ args) : OccursIn p args
  | inside {args inner : List Argument} {kind : PrimitiveKind} {name : String}
      (hmem : .primitive kind name inner ∈ args) (h : OccursIn p inner) : OccursIn p args

theorem Placeholder.OccursIn.mono {p : Placeholder} {args more : List Argument}
    (h : p.OccursIn args) (hsubset : args ⊆ more) : p.OccursIn more := by
  cases h with
  | here h => exact .here (hsubset h)
  | inside hmem h => exact .inside (hsubset hmem) h

mutual

theorem Argument.occursIn_of_slots {p : Placeholder} {owner : Primitive} :
    ∀ a : Argument, ⟨.placeholder p, owner⟩ ∈ a.slots → p.OccursIn [a]
  | .primitive kind name args => by
      intro h
      exact .inside List.mem_cons_self
        (Argument.occursIn_of_slotsOf ⟨kind, name, args⟩ args h)
  | .concrete _ | .random _ | .placeholder _ => by
      intro h
      cases h

theorem Argument.occursIn_of_slotsOf {p : Placeholder} {owner : Primitive} (outer : Primitive) :
    ∀ args : List Argument, ⟨.placeholder p, owner⟩ ∈ slotsOf outer args → p.OccursIn args
  | [] => by
      intro h
      cases h
  | a :: rest => by
      intro h
      rcases List.mem_cons.mp h with hfirst | hlater
      · rw [← (Slot.mk.inj hfirst).left]
        exact .here List.mem_cons_self
      · rcases List.mem_append.mp hlater with hinner | hrest
        · exact (Argument.occursIn_of_slots a hinner).mono (by simp)
        · exact (Argument.occursIn_of_slotsOf outer rest hrest).mono (by simp)

end

theorem Argument.mem_slotsOf_of_mem {owner : Primitive} {a : Argument} {args : List Argument}
    (h : a ∈ args) : ⟨a, owner⟩ ∈ slotsOf owner args ∧ a.slots ⊆ slotsOf owner args := by
  induction args with
  | nil =>
      cases h
  | cons first rest ih =>
      rw [slotsOf]
      rcases List.mem_cons.mp h with rfl | hrest
      · refine ⟨List.mem_cons_self, fun slot hslot => ?_⟩
        exact List.mem_cons_of_mem _ (List.mem_append_left _ hslot)
      · rcases ih hrest with ⟨hself, hinner⟩
        refine ⟨List.mem_cons_of_mem _ (List.mem_append_right _ hself), fun slot hslot => ?_⟩
        exact List.mem_cons_of_mem _ (List.mem_append_right _ (hinner hslot))

theorem Argument.slotsOf_of_occursIn {p : Placeholder} {args : List Argument}
    (h : p.OccursIn args) (outer : Primitive) :
    ∃ owner, ⟨.placeholder p, owner⟩ ∈ slotsOf outer args := by
  induction h generalizing outer with
  | here h =>
      exact ⟨outer, (mem_slotsOf_of_mem h).left⟩
  | @inside _ inner kind name hmem _ ih =>
      rcases ih ⟨kind, name, inner⟩ with ⟨owner, howner⟩
      exact ⟨owner, (mem_slotsOf_of_mem hmem).right howner⟩

theorem Primitive.occursIn_iff {p : Placeholder} (c : Primitive) :
    p.OccursIn c.args ↔ ∃ owner, ⟨.placeholder p, owner⟩ ∈ c.slots := by
  constructor
  · intro h
    exact Argument.slotsOf_of_occursIn h c
  · intro h
    rcases h with ⟨owner, howner⟩
    exact Argument.occursIn_of_slotsOf c c.args howner

end Stimulus
