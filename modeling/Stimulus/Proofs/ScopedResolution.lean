import Stimulus.Proofs.LabelOrder
import Mathlib.Data.List.MinMax

/-!
# Scoped resolution

## The rule

A reference is to the declaration in the deepest block around it.  Where no declaration
of the name lies around it, the reference is to the one that is nearest in the block
tree, and it is ambiguous if several are equally near.

## Tables

A table whose declarations of one name have distinct scopes answers by the rule: of
those that enclose a block one is the deepest.
-/

namespace Stimulus

/-!
# The rule
-/

/-- The declaration is as near to the block as any other. -/
def IsNearest (declared : List LabelDeclaration) (origin : BlockId) (e : LabelDeclaration) :
    Prop :=
  e ∈ declared ∧ ∀ other ∈ declared, e.scope.distance origin ≤ other.scope.distance origin

/-- How many declarations lie as far from the block as `e` does. -/
def countLevel (declared : List LabelDeclaration) (origin : BlockId) (e : LabelDeclaration) :
    Nat :=
  declared.countP fun other => other.scope.distance origin = e.scope.distance origin

/-- What a reference from `origin` to `name` comes to, for the declarations of the name. -/
inductive Resolves (name : String) (declared : List LabelDeclaration) (origin : BlockId) :
    Except StructureFault LabelPlace → Prop where
  | never (h : declared = []) :
      Resolves name declared origin (.error (.labelNeverDeclared name))
  | enclosing {e : LabelDeclaration} (he : e ∈ declared)
      (hencloses : e.scope.encloses origin = true)
      (hdeepest : ∀ other ∈ declared, other.scope.encloses origin = true → other ≠ e →
        other.scope.depth < e.scope.depth) :
      Resolves name declared origin (.ok e.place)
  | nearest {e : LabelDeclaration}
      (hnone : ∀ other ∈ declared, ¬ other.scope.encloses origin = true)
      (hnearest : IsNearest declared origin e) (hsole : countLevel declared origin e = 1) :
      Resolves name declared origin (.ok e.place)
  | ambiguous {e : LabelDeclaration}
      (hnone : ∀ other ∈ declared, ¬ other.scope.encloses origin = true)
      (hnearest : IsNearest declared origin e) (hseveral : 1 < countLevel declared origin e) :
      Resolves name declared origin
        (.error (.labelAmbiguous name (countLevel declared origin e)))

namespace IsNearest

variable {declared : List LabelDeclaration} {origin : BlockId} {e e' : LabelDeclaration}

theorem distance_eq (h : IsNearest declared origin e) (h' : IsNearest declared origin e') :
    e.scope.distance origin = e'.scope.distance origin :=
  Nat.le_antisymm (h.right e' h'.left) (h'.right e h.left)

theorem countLevel_eq (h : IsNearest declared origin e) (h' : IsNearest declared origin e') :
    countLevel declared origin e = countLevel declared origin e' := by
  unfold countLevel
  rw [h.distance_eq h']

theorem eq_of_sole (h : IsNearest declared origin e) (h' : IsNearest declared origin e')
    (hsole : countLevel declared origin e = 1) : e = e' := by
  unfold countLevel at hsole
  rw [List.countP_eq_length_filter, List.length_eq_one_iff] at hsole
  rcases hsole with ⟨only, honly⟩
  have hmem : ∀ d, IsNearest declared origin d → d = only := by
    intro d hd
    apply List.mem_singleton.mp
    rw [← honly]
    exact List.mem_filter.mpr ⟨hd.left, decide_eq_true (hd.distance_eq h)⟩
  rw [hmem e h, hmem e' h']

theorem exists_of_ne_nil (origin : BlockId) (h : declared ≠ []) :
    ∃ e, IsNearest declared origin e := by
  cases hleast : declared.argmin fun e => e.scope.distance origin with
  | none => exact absurd (List.argmin_eq_none.mp hleast) h
  | some e => exact ⟨e, List.argmin_mem hleast, fun _ hother => List.le_of_mem_argmin hother hleast⟩

end IsNearest

namespace Resolves

variable {name : String} {declared : List LabelDeclaration} {origin : BlockId}
variable {r r' : Except StructureFault LabelPlace}

theorem unique (h : Resolves name declared origin r) (h' : Resolves name declared origin r') :
    r = r' := by
  cases h with
  | never hnil =>
      cases h' with
      | never => rfl
      | enclosing he => rw [hnil] at he; cases he
      | nearest _ hnearest => rw [hnil] at hnearest; cases hnearest.left
      | ambiguous _ hnearest => rw [hnil] at hnearest; cases hnearest.left
  | @enclosing e he hencloses hdeepest =>
      cases h' with
      | never hnil => rw [hnil] at he; cases he
      | @enclosing e' he' hencloses' hdeepest' =>
          by_cases hsame : e' = e
          · rw [hsame]
          · have hlower := hdeepest e' he' hencloses' hsame
            have hhigher := hdeepest' e he hencloses (Ne.symm hsame)
            omega
      | nearest hnone => exact absurd hencloses (hnone e he)
      | ambiguous hnone => exact absurd hencloses (hnone e he)
  | @nearest e hnone hnearest hsole =>
      cases h' with
      | never hnil => rw [hnil] at hnearest; cases hnearest.left
      | enclosing he' hencloses' => exact absurd hencloses' (hnone _ he')
      | nearest _ hnearest' => rw [hnearest.eq_of_sole hnearest' hsole]
      | ambiguous _ hnearest' hseveral' =>
          rw [← hnearest.countLevel_eq hnearest', hsole] at hseveral'
          exact absurd hseveral' (Nat.lt_irrefl 1)
  | @ambiguous e hnone hnearest hseveral =>
      cases h' with
      | never hnil => rw [hnil] at hnearest; cases hnearest.left
      | enclosing he' hencloses' => exact absurd hencloses' (hnone _ he')
      | nearest _ hnearest' hsole' =>
          rw [hnearest.countLevel_eq hnearest', hsole'] at hseveral
          exact absurd hseveral (Nat.lt_irrefl 1)
      | ambiguous _ hnearest' => rw [hnearest.countLevel_eq hnearest']

end Resolves

/-!
# Resolution of a table
-/

namespace Labels

variable {t t' : Labels} {name : String} {origin : BlockId}

theorem mem_nearest {candidates : List LabelDeclaration} {e : LabelDeclaration} :
    e ∈ nearest candidates origin ↔ IsNearest candidates origin e := by
  unfold nearest IsNearest
  rw [List.mem_filter, List.all_eq_true]
  simp only [decide_eq_true_eq]

theorem nearest_eq {candidates : List LabelDeclaration} {e : LabelDeclaration}
    (h : IsNearest candidates origin e) :
    nearest candidates origin =
      candidates.filter fun other => other.scope.distance origin = e.scope.distance origin := by
  unfold nearest
  apply List.filter_congr
  intro other hother
  rw [Bool.eq_iff_iff, List.all_eq_true, decide_eq_true_eq]
  constructor
  · intro hleast
    exact Nat.le_antisymm (by simpa using hleast e h.left) (h.right other hother)
  · intro hsame d hd
    rw [hsame]
    simpa using h.right d hd

theorem length_nearest {candidates : List LabelDeclaration} {e : LabelDeclaration}
    (h : IsNearest candidates origin e) :
    (nearest candidates origin).length = countLevel candidates origin e := by
  rw [nearest_eq h, countLevel, List.countP_eq_length_filter]

theorem deepest_of_enclosing? {candidates : List LabelDeclaration} {e : LabelDeclaration}
    (hscopes : ∀ e ∈ candidates, ∀ e' ∈ candidates, e.scope = e'.scope → e = e')
    (h : enclosing? candidates origin = some e) :
    e ∈ candidates ∧ e.scope.encloses origin = true ∧
      ∀ other ∈ candidates, other.scope.encloses origin = true → other ≠ e →
        other.scope.depth < e.scope.depth := by
  unfold enclosing? at h
  have hall := List.find?_some h
  rcases List.mem_filter.mp (List.mem_of_find?_eq_some h) with ⟨he, hencloses⟩
  refine ⟨he, hencloses, ?_⟩
  intro other hother haround hne
  have hle : other.scope.depth ≤ e.scope.depth := by
    simpa using List.all_eq_true.mp hall other (List.mem_filter.mpr ⟨hother, haround⟩)
  apply Nat.lt_of_le_of_ne hle
  intro hdepth
  exact hne (hscopes other hother e he (BlockId.eq_of_encloses_of_depth haround hencloses hdepth))

theorem not_encloses_of_enclosing? {candidates : List LabelDeclaration}
    (h : enclosing? candidates origin = none) :
    ∀ e ∈ candidates, ¬ e.scope.encloses origin = true := by
  intro e he hencloses
  have hmem : e ∈ candidates.filter fun e => e.scope.encloses origin :=
    List.mem_filter.mpr ⟨he, hencloses⟩
  cases hdeepest : (candidates.filter fun e => e.scope.encloses origin).argmax fun e =>
      e.scope.depth with
  | none =>
      rw [List.argmax_eq_none.mp hdeepest] at hmem
      cases hmem
  | some d =>
      apply List.find?_eq_none.mp h d (List.argmax_mem hdeepest)
      apply List.all_eq_true.mpr
      intro other hother
      have hle : other.scope.depth ≤ d.scope.depth :=
        List.le_of_mem_argmax (f := fun e : LabelDeclaration => e.scope.depth) hother hdeepest
      exact decide_eq_true hle

theorem resolves_resolve
    (hscopes : ∀ e ∈ t.named name, ∀ e' ∈ t.named name, e.scope = e'.scope → e = e') :
    Resolves name (t.named name) origin (t.resolve name origin) := by
  simp only [resolve]
  split
  · rename_i hempty
    exact .never (List.isEmpty_iff.mp hempty)
  · rename_i hsome
    have hne : t.named name ≠ [] := by
      intro hnil
      exact hsome (List.isEmpty_iff.mpr hnil)
    split
    · rename_i e hfound
      rcases deepest_of_enclosing? hscopes hfound with ⟨he, hencloses, hdeepest⟩
      exact .enclosing he hencloses hdeepest
    · rename_i hnone
      have hapart := not_encloses_of_enclosing? hnone
      rcases IsNearest.exists_of_ne_nil origin hne with ⟨d, hd⟩
      split
      · rename_i e honly
        have he : IsNearest (t.named name) origin e := by
          rw [← mem_nearest, honly]
          exact List.mem_singleton_self e
        refine .nearest hapart he ?_
        rw [← length_nearest he, honly]
        rfl
      · rename_i hseveral
        have hmem := mem_nearest.mpr hd
        rw [length_nearest hd]
        refine .ambiguous hapart hd ?_
        rw [← length_nearest hd]
        rcases hfound : nearest (t.named name) origin with _ | ⟨e, _ | ⟨e', rest⟩⟩
        · rw [hfound] at hmem
          cases hmem
        · exact absurd hfound (hseveral e)
        · simp

theorem resolve_iff
    (hscopes : ∀ e ∈ t.named name, ∀ e' ∈ t.named name, e.scope = e'.scope → e = e')
    {r : Except StructureFault LabelPlace} :
    t.resolve name origin = r ↔ Resolves name (t.named name) origin r := by
  constructor
  · intro h
    rw [← h]
    exact resolves_resolve hscopes
  · intro h
    exact (resolves_resolve hscopes).unique h

end Labels

end Stimulus
