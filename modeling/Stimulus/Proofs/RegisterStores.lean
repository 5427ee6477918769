import Mathlib.Data.List.Nodup
import Stimulus.Pattern.Register
import Stimulus.Proofs.Insertions

/-!
# Stores of register preparators

## Places

A preparator is registered at a place: its target together with its variant, or with the
default of the target if it names none.  Names count up to spelling.  The two levels of a
store are one table of places.

## Registrations

At each place the last preparator counts.  A look-up that finds nothing at the place of a
variant goes on to the default of the target.
-/

namespace Stimulus

abbrev RegisterPlace :=
  Key × Option Key

def RegisterPreparator.place (p : RegisterPreparator) : RegisterPlace :=
  (Key.ofName p.target, p.variant.map Key.ofName)

/-!
# Groups
-/

namespace RegisterGroup

theorem registered?_insert (g : RegisterGroup) (p : RegisterPreparator) (variant : Option Key) :
    (g.insert p).registered? variant =
      if p.place.2 = variant then some p else g.registered? variant := by
  unfold insert RegisterPreparator.place
  cases hvariant : p.variant with
  | none =>
      cases variant with
      | none => rfl
      | some key => rfl
  | some name =>
      cases variant with
      | none => rfl
      | some key =>
          simp only [registered?, OrderedMap.get?_insert, Option.map_some, Option.some.injEq]

theorem variants_insert (g : RegisterGroup) (p : RegisterPreparator) :
    (g.insert p).variants.keys =
      match p.place.2 with
      | none => g.variants.keys
      | some variant =>
          if variant ∈ g.variants.keys then g.variants.keys
          else g.variants.keys ++ [variant] := by
  unfold insert RegisterPreparator.place
  cases p.variant with
  | none => rfl
  | some name => exact OrderedMap.keys_insert _ _ _

theorem toList_eq (g : RegisterGroup) :
    g.toList = (none :: g.variants.keys.map some).filterMap g.registered? := by
  have hvariants : (g.variants.keys.map some).filterMap g.registered? = g.variants.values := by
    rw [OrderedMap.values_eq, List.filterMap_map]
    rfl
  rw [toList, List.filterMap_cons, hvariants, registered?]
  cases g.default? <;> rfl

end RegisterGroup

/-!
# Stores
-/

namespace RegisterStore

variable (s : RegisterStore) (p : RegisterPreparator)

def groupAt (target : Key) : RegisterGroup :=
  (s.get? target).getD {}

def at? (place : RegisterPlace) : Option RegisterPreparator :=
  (s.groupAt place.1).registered? place.2

theorem groupAt_register (target : Key) :
    (s.register p).groupAt target =
      if p.place.1 = target then (s.groupAt target).insert p else s.groupAt target := by
  have hget : (s.register p).get? target =
      if p.place.1 = target then some ((s.groupAt p.place.1).insert p) else s.get? target :=
    OrderedMap.get?_insert s _ _ _
  rw [groupAt, hget]
  by_cases htarget : p.place.1 = target
  · rw [if_pos htarget, if_pos htarget, htarget]
    rfl
  · rw [if_neg htarget, if_neg htarget]
    rfl

theorem at?_register (place : RegisterPlace) :
    (s.register p).at? place = if p.place = place then some p else s.at? place := by
  rcases place with ⟨target, variant⟩
  unfold at?
  rw [groupAt_register]
  by_cases htarget : p.place.1 = target
  · rw [if_pos htarget, RegisterGroup.registered?_insert]
    simp only [Prod.ext_iff, htarget, true_and]
  · rw [if_neg htarget, if_neg]
    intro hsame
    exact htarget (congrArg Prod.fst hsame)

theorem toList_eq_groups : s.toList = s.keys.flatMap fun target => (s.groupAt target).toList := by
  unfold toList
  rw [OrderedMap.values_eq, List.filterMap_eq_flatMap_toList, List.flatMap_assoc]
  congr 1
  funext target
  unfold groupAt
  cases s.get? target with
  | none => rfl
  | some g => simp

end RegisterStore

/-!
# Registrations
-/

def RegisterStore.ofRegistered (registered : List RegisterPreparator) : RegisterStore :=
  registered.foldl RegisterStore.register .empty

namespace Registered

variable {registered : List RegisterPreparator}

/-- The preparator that was registered last at a place. -/
def lastAt? (registered : List RegisterPreparator) (place : RegisterPlace) :
    Option RegisterPreparator :=
  (registered.filter fun p => p.place = place).getLast?

def targets (registered : List RegisterPreparator) : List Key :=
  (registered.map fun p => p.place.1).eraseDups

def variants (registered : List RegisterPreparator) (target : Key) : List Key :=
  ((registered.filter fun p => p.place.1 = target).filterMap fun p => p.place.2).eraseDups

def placesOf (registered : List RegisterPreparator) (target : Key) : List RegisterPlace :=
  (none :: (variants registered target).map some).map fun variant => (target, variant)

def places (registered : List RegisterPreparator) : List RegisterPlace :=
  (targets registered).flatMap (placesOf registered)

theorem lastAt?_concat (registered : List RegisterPreparator) (p : RegisterPreparator)
    (place : RegisterPlace) :
    lastAt? (registered ++ [p]) place =
      if p.place = place then some p else lastAt? registered place := by
  simp only [lastAt?, getLast?_filter_concat, decide_eq_true_eq]

theorem variants_concat (registered : List RegisterPreparator) {p : RegisterPreparator}
    {target : Key} (htarget : p.place.1 = target) :
    variants (registered ++ [p]) target =
      match p.place.2 with
      | none => variants registered target
      | some variant =>
          if variant ∈ variants registered target then variants registered target
          else variants registered target ++ [variant] := by
  unfold variants
  rw [List.filter_append, List.filterMap_append,
    List.filter_cons_of_pos (by simpa using htarget), List.filter_nil]
  cases hvariant : p.place.2 with
  | none =>
      have hlast : [p].filterMap (fun q => q.place.2) = [] := by simp [hvariant]
      rw [hlast, List.append_nil]
  | some variant =>
      have hlast : [p].filterMap (fun q => q.place.2) = [variant] := by simp [hvariant]
      rw [hlast, eraseDups_concat]
      simp only [List.mem_eraseDups]

theorem lastAt?_eq_some {place : RegisterPlace} {p : RegisterPreparator}
    (h : lastAt? registered place = some p) : p ∈ registered ∧ p.place = place := by
  have hmem := List.mem_of_getLast? h
  simpa using hmem

theorem isSome_lastAt? {place : RegisterPlace} :
    (lastAt? registered place).isSome = true ↔ place ∈ registered.map RegisterPreparator.place := by
  unfold lastAt?
  rw [List.getLast?_isSome, List.mem_map]
  constructor
  · intro hsome
    rcases List.exists_mem_of_ne_nil _ hsome with ⟨p, hp⟩
    exact ⟨p, by simpa using hp⟩
  · intro hparts
    rcases hparts with ⟨p, hp, hplace⟩
    exact List.ne_nil_of_mem (List.mem_filter.mpr ⟨hp, by simpa using hplace⟩)

theorem mem_places_of_mem {p : RegisterPreparator} (hp : p ∈ registered) :
    p.place ∈ places registered := by
  have htarget : p.place.1 ∈ targets registered :=
    List.mem_eraseDups.mpr (List.mem_map_of_mem hp)
  refine List.mem_flatMap.mpr ⟨p.place.1, htarget, List.mem_map.mpr ⟨p.place.2, ?_, rfl⟩⟩
  cases hvariant : p.place.2 with
  | none => exact List.mem_cons_self
  | some variant =>
      apply List.mem_cons_of_mem
      apply List.mem_map_of_mem
      refine List.mem_eraseDups.mpr (List.mem_filterMap.mpr ⟨p, ?_, hvariant⟩)
      exact List.mem_filter.mpr ⟨hp, by simp⟩

theorem nodup_places (registered : List RegisterPreparator) : (places registered).Nodup := by
  rw [places, List.nodup_flatMap]
  constructor
  · intro target _
    apply List.Nodup.map (fun _ _ hsame => congrArg Prod.snd hsame)
    rw [List.nodup_cons]
    refine ⟨by simp, ?_⟩
    exact (nodup_eraseDups _).map fun _ _ hsame => Option.some.inj hsame
  · apply (nodup_eraseDups _).imp
    intro target other hne place hplace hother
    rcases List.mem_map.mp hplace with ⟨_, _, rfl⟩
    rcases List.mem_map.mp hother with ⟨_, _, hsame⟩
    exact hne (congrArg Prod.fst hsame).symm

end Registered

namespace RegisterStore

open Registered

variable {registered : List RegisterPreparator}

theorem ofRegistered_concat (registered : List RegisterPreparator) (p : RegisterPreparator) :
    ofRegistered (registered ++ [p]) = (ofRegistered registered).register p := by
  simp [ofRegistered]

theorem at?_ofRegistered (registered : List RegisterPreparator) (place : RegisterPlace) :
    (ofRegistered registered).at? place = lastAt? registered place := by
  induction registered using List.reverseRecOn with
  | nil =>
      rcases place with ⟨target, _ | variant⟩ <;> rfl
  | append_singleton registered p ih =>
      rw [ofRegistered_concat, at?_register, ih, lastAt?_concat]

theorem keys_ofRegistered (registered : List RegisterPreparator) :
    (ofRegistered registered).keys = targets registered := by
  induction registered using List.reverseRecOn with
  | nil =>
      rfl
  | append_singleton registered p ih =>
      rw [ofRegistered_concat, register, OrderedMap.keys_insert, ih, targets, targets,
        List.map_append, List.map_singleton, eraseDups_concat]
      simp only [List.mem_eraseDups]
      rfl

theorem variants_ofRegistered (registered : List RegisterPreparator) (target : Key) :
    ((ofRegistered registered).groupAt target).variants.keys = variants registered target := by
  induction registered using List.reverseRecOn with
  | nil =>
      rfl
  | append_singleton registered p ih =>
      rw [ofRegistered_concat, groupAt_register]
      by_cases htarget : p.place.1 = target
      · rw [if_pos htarget, RegisterGroup.variants_insert, ih, variants_concat registered htarget]
      · rw [if_neg htarget, ih]
        simp [variants, htarget]

theorem toList_ofRegistered (registered : List RegisterPreparator) :
    (ofRegistered registered).toList = (places registered).filterMap (lastAt? registered) := by
  rw [toList_eq_groups, keys_ofRegistered, places, List.filterMap_flatMap]
  congr 1
  funext target
  rw [RegisterGroup.toList_eq, variants_ofRegistered, placesOf, List.filterMap_map]
  apply List.filterMap_congr
  intro variant _
  exact at?_ofRegistered registered (target, variant)

theorem places_toList (registered : List RegisterPreparator) :
    (ofRegistered registered).toList.map RegisterPreparator.place =
      (places registered).filter fun place => (lastAt? registered place).isSome := by
  rw [toList_ofRegistered, List.map_filterMap, ← List.filterMap_eq_filter]
  apply List.filterMap_congr
  intro place _
  cases h : lastAt? registered place with
  | none => simp [Option.guard, h]
  | some p => simp [Option.guard, h, (lastAt?_eq_some h).right]

theorem mem_toList_ofRegistered {p : RegisterPreparator} :
    p ∈ (ofRegistered registered).toList ↔ lastAt? registered p.place = some p := by
  rw [toList_ofRegistered, List.mem_filterMap]
  constructor
  · intro hparts
    rcases hparts with ⟨place, _, hplace⟩
    rw [(lastAt?_eq_some hplace).right]
    exact hplace
  · intro h
    exact ⟨p.place, mem_places_of_mem (lastAt?_eq_some h).left, h⟩

theorem length_toList (registered : List RegisterPreparator) :
    (ofRegistered registered).toList.length =
      (registered.map RegisterPreparator.place).eraseDups.length := by
  have hperm : ((ofRegistered registered).toList.map RegisterPreparator.place).Perm
      (registered.map RegisterPreparator.place).eraseDups := by
    rw [places_toList, List.perm_ext_iff_of_nodup ((nodup_places registered).filter _)
      (nodup_eraseDups _)]
    intro place
    rw [List.mem_filter, isSome_lastAt?, List.mem_eraseDups, List.mem_map]
    constructor
    · intro h
      exact h.right
    · intro hparts
      rcases hparts with ⟨p, hp, rfl⟩
      exact ⟨mem_places_of_mem hp, p, hp, rfl⟩
  rw [← hperm.length_eq, List.length_map]

theorem isEmpty_ofRegistered (registered : List RegisterPreparator) :
    (ofRegistered registered).isEmpty = true ↔ registered = [] := by
  induction registered using List.reverseRecOn with
  | nil =>
      simp [ofRegistered, OrderedMap.isEmpty, OrderedMap.empty]
  | append_singleton registered p ih =>
      have hmem : p.place.1 ∈ (ofRegistered (registered ++ [p])).keys := by
        rw [keys_ofRegistered]
        exact List.mem_eraseDups.mpr (List.mem_map_of_mem (by simp))
      constructor
      · intro hempty
        rw [OrderedMap.keys, List.isEmpty_iff.mp hempty] at hmem
        cases hmem
      · intro hnil
        simp at hnil

/-!
# Stores as tables with a fallback
-/

/-- What a look-up answers: the last preparator of the variant, else the last one without
a variant. -/
inductive Finds (registered : List RegisterPreparator) (target : String) :
    Option String → Except StructureFault RegisterPreparator → Prop where
  | variant {name : String} {p : RegisterPreparator}
      (h : lastAt? registered (Key.ofName target, some (Key.ofName name)) = some p) :
      Finds registered target (some name) (.ok p)
  | default {variant : Option String} {p : RegisterPreparator}
      (hvariant : ∀ name, variant = some name →
        lastAt? registered (Key.ofName target, some (Key.ofName name)) = none)
      (h : lastAt? registered (Key.ofName target, none) = some p) :
      Finds registered target variant (.ok p)
  | missing {variant : Option String}
      (hvariant : ∀ name, variant = some name →
        lastAt? registered (Key.ofName target, some (Key.ofName name)) = none)
      (h : lastAt? registered (Key.ofName target, none) = none) :
      Finds registered target variant (.error (.noRegisterPreparator ⟨target, none⟩))

theorem finds_default (target : String) {variant : Option String}
    (hvariant : ∀ name, variant = some name →
      lastAt? registered (Key.ofName target, some (Key.ofName name)) = none) :
    Finds registered target variant
      (match lastAt? registered (Key.ofName target, none) with
        | some p => .ok p
        | none => .error (.noRegisterPreparator ⟨target, none⟩)) := by
  cases h : lastAt? registered (Key.ofName target, none) with
  | none => exact .missing hvariant h
  | some p => exact .default hvariant h

theorem find_ofRegistered (registered : List RegisterPreparator) (target : String)
    (variant : Option String) :
    Finds registered target variant ((ofRegistered registered).find target variant) := by
  have hdefault : ((ofRegistered registered).group target).default? =
      lastAt? registered (Key.ofName target, none) :=
    at?_ofRegistered registered (Key.ofName target, none)
  have hvariants (key : Key) : ((ofRegistered registered).group target).variants.get? key =
      lastAt? registered (Key.ofName target, some key) :=
    at?_ofRegistered registered (Key.ofName target, some key)
  unfold find
  simp only [hdefault, hvariants]
  cases variant with
  | none =>
      exact finds_default target (by simp)
  | some name =>
      cases hname : lastAt? registered (Key.ofName target, some (Key.ofName name)) with
      | some p =>
          rw [Option.bind_some, hname]
          exact .variant hname
      | none =>
          rw [Option.bind_some, hname, Option.none_or]
          exact finds_default target (by simpa using hname)

/-- The store is a table of places in which the last registration counts. -/
structure LastWins (registered : List RegisterPreparator) (s : RegisterStore) : Prop where
  replaces : ∀ p, s.replacedBy? p = lastAt? registered p.place
  finds : ∀ target variant, Finds registered target variant (s.find target variant)
  lists : s.toList = (places registered).filterMap (lastAt? registered)
  once : (s.toList.map RegisterPreparator.place).Nodup
  mem_iff : ∀ p, p ∈ s.toList ↔ lastAt? registered p.place = some p
  length_eq : s.toList.length = (registered.map RegisterPreparator.place).eraseDups.length
  isEmpty_iff : s.isEmpty = true ↔ registered = []

/-- Whatever is registered, and in whatever spellings, the last registration counts. -/
theorem lastWins_ofRegistered (registered : List RegisterPreparator) :
    LastWins registered (ofRegistered registered) where
  replaces p := at?_ofRegistered registered p.place
  finds := find_ofRegistered registered
  lists := toList_ofRegistered registered
  once := by
    rw [places_toList]
    exact (nodup_places registered).filter _
  mem_iff _ := mem_toList_ofRegistered
  length_eq := length_toList registered
  isEmpty_iff := isEmpty_ofRegistered registered

end RegisterStore
end Stimulus
