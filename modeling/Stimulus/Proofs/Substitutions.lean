import Mathlib.Data.List.Basic
import Stimulus.Proofs.Occurrences

/-!
# Substitutions

## Positions after a replacement

A replacement that leaves nested primitives alone changes argument positions one by one:
each becomes the positions of what is put there, or stays where it is with a changed owner.
Nothing is replaced a second time inside a replacement.

## Placeholders

Substituting an argument for a placeholder is such a replacement.  So what a visit of the
positions meets afterwards can be read off what it met before.
-/

namespace Stimulus

/-!
# Replacements that leave primitives alone
-/

def KeepsPrimitives (f : Argument → Option Argument) : Prop :=
  ∀ kind name args, f (.primitive kind name args) = none

def Slot.replaced (f : Argument → Option Argument) (s : Slot) : List Slot :=
  match f s.argument with
  | some new => Argument.slotsOf (s.owner.replace f) [new]
  | none => [⟨s.argument.replace f, s.owner.replace f⟩]

section

variable {f : Argument → Option Argument}

theorem Argument.replace_of_some {a new : Argument} (h : f a = some new) : a.replace f = new := by
  cases a <;> simp [replace, h]

theorem Argument.replace_of_none {a : Argument} (ha : a.primitive? = none) (h : f a = none) :
    a.replace f = a := by
  cases a with
  | primitive kind name args => cases ha
  | _ => simp [replace, h]

theorem KeepsPrimitives.replace (hf : KeepsPrimitives f) (kind : PrimitiveKind) (name : String)
    (args : List Argument) :
    (Argument.primitive kind name args).replace f =
      .primitive kind name (Argument.replaceAll f args) := by
  rw [Argument.replace, hf]
  rfl

theorem KeepsPrimitives.slots_of_some (hf : KeepsPrimitives f) {a new : Argument}
    (h : f a = some new) : a.slots = [] := by
  cases a with
  | primitive kind name args =>
      rw [hf] at h
      cases h
  | _ => rfl

mutual

theorem Argument.slots_replace (hf : KeepsPrimitives f) : ∀ a : Argument, f a = none →
    (a.replace f).slots = a.slots.flatMap (Slot.replaced f)
  | .primitive kind name args => by
      intro _
      rw [hf.replace]
      exact Argument.slotsOf_replaceAll hf ⟨kind, name, args⟩ args
  | .concrete _ | .random _ | .placeholder _ => by
      intro h
      rw [replace_of_none rfl h]
      rfl

theorem Argument.slotsOf_replaceAll (hf : KeepsPrimitives f) (owner : Primitive) :
    ∀ args : List Argument, slotsOf (owner.replace f) (replaceAll f args) =
      (slotsOf owner args).flatMap (Slot.replaced f)
  | [] => rfl
  | a :: rest => by
      have hrest := Argument.slotsOf_replaceAll hf owner rest
      rw [replaceAll, slotsOf, slotsOf, List.flatMap_cons, List.flatMap_append, hrest,
        Slot.replaced]
      cases h : f a with
      | none =>
          rw [Argument.slots_replace hf a h]
          rfl
      | some new =>
          rw [replace_of_some h, hf.slots_of_some h]
          simp [slotsOf]

end

theorem Primitive.slots_replace (hf : KeepsPrimitives f) (p : Primitive) :
    (p.replace f).slots = p.slots.flatMap (Slot.replaced f) :=
  Argument.slotsOf_replaceAll hf p p.args

mutual

theorem Argument.replace_eq_self : ∀ a : Argument, f a = none →
    (∀ s ∈ a.slots, f s.argument = none) → a.replace f = a
  | .primitive kind name args => by
      intro h hslots
      rw [replace, h, Argument.replaceAll_eq_self ⟨kind, name, args⟩ args hslots]
      rfl
  | .concrete _ | .random _ | .placeholder _ => by
      intro h _
      exact replace_of_none rfl h

theorem Argument.replaceAll_eq_self (owner : Primitive) : ∀ args : List Argument,
    (∀ s ∈ slotsOf owner args, f s.argument = none) → replaceAll f args = args
  | [] => fun _ => rfl
  | a :: rest => by
      intro hslots
      rcases List.forall_mem_cons.mp hslots with ⟨hfirst, hlater⟩
      rcases List.forall_mem_append.mp hlater with ⟨hinner, hrest⟩
      rw [replaceAll, Argument.replace_eq_self a hfirst hinner,
        Argument.replaceAll_eq_self owner rest hrest]

end

end

/-!
# What a visit meets
-/

structure Atom where
  argument : Argument
  owner : String

structure PrimitiveShape where
  kind : PrimitiveKind
  name : String
  count : Nat

def Primitive.shape (p : Primitive) : PrimitiveShape :=
  ⟨p.kind, p.name, p.args.length⟩

namespace Slot

def atom? (s : Slot) : Option Atom :=
  match s.argument.primitive? with
  | some _ => none
  | none => some ⟨s.argument, s.owner.name⟩

def shape? (s : Slot) : Option PrimitiveShape :=
  s.argument.primitive?.map Primitive.shape

end Slot

namespace Primitive

/-- The arguments at any depth that are no primitives, in the order of a visit. -/
def atoms (p : Primitive) : List Atom :=
  p.slots.filterMap Slot.atom?

def shapes (p : Primitive) : List PrimitiveShape :=
  p.shape :: p.slots.filterMap Slot.shape?

end Primitive

namespace Argument

def atoms (owner : String) (a : Argument) : List Atom :=
  match a.primitive? with
  | some p => p.atoms
  | none => [⟨a, owner⟩]

def shapes (a : Argument) : List PrimitiveShape :=
  match a.primitive? with
  | some p => p.shapes
  | none => []

theorem filterMap_atom? (owner : Primitive) (a : Argument) :
    (slotsOf owner [a]).filterMap Slot.atom? = a.atoms owner.name := by
  cases a with
  | primitive kind name args =>
      rw [slotsOf, slotsOf, List.append_nil]
      rfl
  | _ => rfl

theorem filterMap_shape? (owner : Primitive) (a : Argument) :
    (slotsOf owner [a]).filterMap Slot.shape? = a.shapes := by
  cases a with
  | primitive kind name args =>
      rw [slotsOf, slotsOf, List.append_nil]
      rfl
  | _ => rfl

end Argument

/-!
# Placeholders
-/

section

variable (x : Placeholder) (y : Argument)

def Placeholder.substitution (a : Argument) : Option Argument :=
  if a = .placeholder x then some y else none

theorem Placeholder.keeps_substitution : KeepsPrimitives (x.substitution y) := by
  intro kind name args
  rw [substitution, if_neg Argument.noConfusion]

theorem Primitive.substitute_eq (p : Primitive) :
    p.substitute (.placeholder x) y = p.replace (x.substitution y) :=
  rfl

theorem Slot.replaced_of_eq {s : Slot} (h : s.argument = .placeholder x) :
    s.replaced (x.substitution y) =
      Argument.slotsOf (s.owner.replace (x.substitution y)) [y] := by
  rw [replaced, Placeholder.substitution, if_pos h]

theorem Slot.replaced_of_ne {s : Slot} (h : s.argument ≠ .placeholder x) :
    s.replaced (x.substitution y) =
      [⟨s.argument.replace (x.substitution y), s.owner.replace (x.substitution y)⟩] := by
  rw [replaced, Placeholder.substitution, if_neg h]

theorem Slot.atoms_replaced (s : Slot) :
    (s.replaced (x.substitution y)).filterMap Slot.atom? =
      s.atom?.toList.flatMap fun atom =>
        if atom.argument = .placeholder x then y.atoms atom.owner else [atom] := by
  by_cases hx : s.argument = .placeholder x
  · have hatom : s.atom? = some ⟨.placeholder x, s.owner.name⟩ := by
      rw [atom?, hx]
      rfl
    rw [replaced_of_eq x y hx, Argument.filterMap_atom?, hatom]
    simp [Primitive.replace]
  · rw [replaced_of_ne x y hx]
    rcases s with ⟨a, owner⟩
    cases a with
    | primitive kind name args =>
        rw [(x.keeps_substitution y).replace]
        rfl
    | _ =>
        rw [Argument.replace_of_none rfl (if_neg hx)]
        show [_] = (if _ then _ else [_]) ++ []
        rw [if_neg hx]
        rfl

theorem Argument.length_replaceAll (f : Argument → Option Argument) (args : List Argument) :
    (replaceAll f args).length = args.length := by
  induction args with
  | nil => rfl
  | cons a rest ih => rw [replaceAll, List.length_cons, List.length_cons, ih]

theorem Slot.shapes_replaced (s : Slot) :
    (s.replaced (x.substitution y)).filterMap Slot.shape? =
      if s.argument = .placeholder x then y.shapes else s.shape?.toList := by
  by_cases hx : s.argument = .placeholder x
  · rw [replaced_of_eq x y hx, Argument.filterMap_shape?, if_pos hx]
  · rw [replaced_of_ne x y hx, if_neg hx]
    rcases s with ⟨a, owner⟩
    cases a with
    | primitive kind name args =>
        have hshape (as : List Argument) (o : Primitive) :
            (⟨.primitive kind name as, o⟩ : Slot).shape? = some ⟨kind, name, as.length⟩ :=
          rfl
        rw [(x.keeps_substitution y).replace]
        simp [hshape, Argument.length_replaceAll]
    | _ =>
        rw [Argument.replace_of_none rfl (if_neg hx)]
        rfl

variable (p : Primitive)

theorem Primitive.atoms_substitute :
    (p.substitute (.placeholder x) y).atoms =
      p.atoms.flatMap fun atom =>
        if atom.argument = .placeholder x then y.atoms atom.owner else [atom] := by
  have hslots := slots_replace (x.keeps_substitution y) p
  rw [atoms, substitute_eq, hslots, List.filterMap_flatMap, atoms,
    List.filterMap_eq_flatMap_toList, List.flatMap_assoc]
  exact List.flatMap_congr fun s _ => s.atoms_replaced x y

theorem Primitive.shapes_substitute :
    (p.substitute (.placeholder x) y).shapes =
      p.shape :: p.slots.flatMap fun s =>
        if s.argument = .placeholder x then y.shapes else s.shape?.toList := by
  have hslots := slots_replace (x.keeps_substitution y) p
  have hshape : (p.replace (x.substitution y)).shape = p.shape := by
    simp [shape, replace, Argument.length_replaceAll]
  rw [shapes, substitute_eq, hslots, hshape, List.filterMap_flatMap]
  exact congrArg _ (List.flatMap_congr fun s _ => s.shapes_replaced x y)

theorem Slot.occurs_replaced {s : Slot} {owner : Primitive} :
    ⟨.placeholder x, owner⟩ ∈ s.replaced (x.substitution y) ↔
      s.argument = .placeholder x ∧
        ⟨.placeholder x, owner⟩ ∈ Argument.slotsOf (s.owner.replace (x.substitution y)) [y] := by
  by_cases hx : s.argument = .placeholder x
  · rw [replaced_of_eq x y hx]
    simp [hx]
  · rw [replaced_of_ne x y hx]
    simp only [hx, false_and, iff_false, List.mem_singleton]
    intro hsame
    have hargument := congrArg Slot.argument hsame
    rcases s with ⟨a, o⟩
    cases a with
    | primitive kind name args =>
        rw [(x.keeps_substitution y).replace] at hargument
        cases hargument
    | _ =>
        rw [Argument.replace_of_none rfl (if_neg hx)] at hargument
        exact hx hargument.symm

theorem Primitive.occursIn_substitute :
    x.OccursIn (p.substitute (.placeholder x) y).args ↔ x.OccursIn p.args ∧ x.OccursIn [y] := by
  have hslots := slots_replace (x.keeps_substitution y) p
  rw [occursIn_iff, occursIn_iff, substitute_eq, hslots]
  constructor
  · intro h
    rcases h with ⟨owner, howner⟩
    rcases List.mem_flatMap.mp howner with ⟨⟨a, outer⟩, hs, hreplaced⟩
    rcases (Slot.occurs_replaced x y).mp hreplaced with ⟨rfl, hinside⟩
    exact ⟨⟨outer, hs⟩, Argument.occursIn_of_slotsOf _ [y] hinside⟩
  · intro h
    rcases h with ⟨⟨outer, hs⟩, hy⟩
    rcases Argument.slotsOf_of_occursIn hy (outer.replace (x.substitution y)) with ⟨owner, howner⟩
    exact ⟨owner, List.mem_flatMap.mpr ⟨_, hs, (Slot.occurs_replaced x y).mpr ⟨rfl, howner⟩⟩⟩

theorem Primitive.substitute_of_absent (h : ¬ x.OccursIn p.args) :
    p.substitute (.placeholder x) y = p := by
  have hnone : ∀ s ∈ p.slots, x.substitution y s.argument = none := by
    intro s hs
    apply if_neg
    intro hx
    exact h ((occursIn_iff p).mpr ⟨s.owner, hx ▸ hs⟩)
  rw [substitute_eq, replace, Argument.replaceAll_eq_self p p.args hnone]

/-- The primitive `q` is `p` with `y` for every occurrence of `x`. -/
structure Primitive.Substitutes (p q : Primitive) : Prop where
  atoms : q.atoms = p.atoms.flatMap fun atom =>
    if atom.argument = .placeholder x then y.atoms atom.owner else [atom]
  shapes : q.shapes = p.shape :: p.slots.flatMap fun s =>
    if s.argument = .placeholder x then y.shapes else s.shape?.toList
  occurs_iff : x.OccursIn q.args ↔ x.OccursIn p.args ∧ x.OccursIn [y]
  unchanged : ¬ x.OccursIn p.args → q = p

/-- Substitution and the visit of positions agree. -/
theorem Primitive.substitutes_substitute :
    p.Substitutes x y (p.substitute (.placeholder x) y) where
  atoms := p.atoms_substitute x y
  shapes := p.shapes_substitute x y
  occurs_iff := p.occursIn_substitute x y
  unchanged := p.substitute_of_absent x y

end
end Stimulus
