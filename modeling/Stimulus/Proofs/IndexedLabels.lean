import Stimulus.Proofs.ScopedResolution
import Stimulus.Proofs.SettledCalls
import Stimulus.Tree.IndexedLabels

/-!
# Labels and their index

## Declarations

A declaration in place is settled, and keeps the index in step with the row: from every name it
leads to the declarations of that name, in order.

## References

Hence a reference that follows the index is answered by the rule of scopes, like one that
searches the declarations.
-/

namespace Stimulus

open InPlace

theorem getElem?_concat_eq_some {α : Type} {l : List α} {a b : α} {position : Nat} :
    (l ++ [a])[position]? = some b ↔
      l[position]? = some b ∨ position = l.length ∧ a = b := by
  rcases Nat.lt_trichotomy position l.length with hlt | rfl | hgt
  · rw [List.getElem?_append_left hlt]
    simp [Nat.ne_of_lt hlt]
  · simp
  · have hlength : (l ++ [a]).length ≤ position := by
      simpa using Nat.succ_le_of_lt hgt
    rw [List.getElem?_eq_none hlength, List.getElem?_eq_none (Nat.le_of_lt hgt)]
    simp [Nat.ne_of_gt hgt]

namespace IndexedLabels

variable {t : IndexedLabels}

/-!
# Declarations
-/

/-- The index leads from a name to the positions of its entries. -/
def Indexes (t : IndexedLabels) : Prop :=
  ∀ name position, position ∈ t.positions name ↔
    ∃ e, t.table.entries[position]? = some e ∧ e.name = name

def declared (t : IndexedLabels) (entry : LabelDeclaration) : IndexedLabels where
  table := ⟨t.table.entries ++ [entry]⟩
  slots := t.slots.insert entry.name (t.positions entry.name ++ [t.table.entries.length])

theorem isDeclared_iff (hindex : t.Indexes) {entry : LabelDeclaration} :
    t.isDeclared entry =
      t.table.entries.any fun e => e.name == entry.name && e.scope == entry.scope := by
  unfold isDeclared
  rw [Bool.eq_iff_iff, List.any_eq_true, List.any_eq_true]
  constructor
  · intro hparts
    rcases hparts with ⟨position, hposition, hscope⟩
    rcases (hindex entry.name position).mp hposition with ⟨e, he, hname⟩
    rw [he, Option.any_some] at hscope
    exact ⟨e, List.mem_of_getElem? he, by simp [hname, hscope]⟩
  · intro hparts
    rcases hparts with ⟨e, he, hsame⟩
    rw [Bool.and_eq_true, beq_iff_eq, beq_iff_eq] at hsame
    rcases List.getElem?_of_mem he with ⟨position, hposition⟩
    refine ⟨position, (hindex entry.name position).mpr ⟨e, hposition, hsame.left⟩, ?_⟩
    simp [hposition, hsame.right]

theorem contains_of_isDeclared {entry : LabelDeclaration} (h : t.isDeclared entry = true) :
    t.slots.contains entry.name = true := by
  unfold isDeclared positions at h
  unfold OrderedMap.contains
  cases hslots : t.slots.get? entry.name with
  | none =>
      simp [hslots] at h
  | some _ =>
      rfl

theorem positions_entered (name other : String) :
    (t.entered name).positions other = t.positions other := by
  unfold entered
  by_cases hname : t.slots.contains name = true
  · rw [if_pos hname]
  · rw [if_neg hname]
    unfold positions
    rw [OrderedMap.get?_insert]
    by_cases hsame : name = other
    · have hnone : t.slots.get? other = none := by
        rw [← hsame]
        simpa [OrderedMap.contains] using hname
      rw [if_pos hsame, hnone]
      rfl
    · rw [if_neg hsame]

theorem table_entered (name : String) : (t.entered name).table = t.table := by
  unfold entered
  split
  · rfl
  · rfl

theorem insert_entered (name : String) (found : List Nat) :
    (t.entered name).slots.insert name found = t.slots.insert name found := by
  unfold entered
  split
  · rfl
  · exact OrderedMap.insert_insert _ _ _ _

/-- A refused declaration enters nothing; an accepted one is entered with its position. -/
theorem call_declare (hindex : t.Indexes) (entry : LabelDeclaration) :
    (declare entry).call t =
      settle t (fun _ => ((), t.declared entry))
        ((t.table.declare entry).mapError .structural) := by
  have hsame : (t.entered entry.name).isDeclared entry = t.isDeclared entry := by
    unfold isDeclared
    rw [positions_entered, table_entered]
  unfold declare Labels.declare
  rw [call_modify_bind, call_get_bind, hsame, ← isDeclared_iff hindex]
  by_cases hdeclared : t.isDeclared entry = true
  · have hentered : t.entered entry.name = t := if_pos (contains_of_isDeclared hdeclared)
    rw [hentered]
    simp only [hdeclared, refuseIf, if_true]
    rfl
  · simp only [hdeclared, refuseIf, Bool.false_eq_true, if_false]
    change (_, IndexedLabels.mk ⟨(t.entered entry.name).table.entries ++ [entry]⟩
      ((t.entered entry.name).slots.insert entry.name
        ((t.entered entry.name).positions entry.name ++
          [(t.entered entry.name).table.entries.length]))) = _
    rw [insert_entered, positions_entered, table_entered]
    rfl

theorem positions_declared (entry : LabelDeclaration) (name : String) :
    (t.declared entry).positions name =
      if entry.name = name then t.positions name ++ [t.table.entries.length]
      else t.positions name := by
  unfold declared positions
  rw [OrderedMap.get?_insert]
  by_cases hname : entry.name = name
  · rw [if_pos hname, if_pos hname, hname]
    rfl
  · rw [if_neg hname, if_neg hname]

theorem Indexes.declared (h : t.Indexes) (entry : LabelDeclaration) :
    (t.declared entry).Indexes := by
  intro name position
  change _ ↔ ∃ e, (t.table.entries ++ [entry])[position]? = some e ∧ e.name = name
  rw [positions_declared]
  simp only [getElem?_concat_eq_some, or_and_right, exists_or, ← h name position]
  by_cases hname : entry.name = name
  · simp [hname]
  · simp [hname]

/-!
# Candidates
-/

/-- From every name the index leads to its declarations, in order. -/
structure InStep (t : IndexedLabels) : Prop where
  indexes : t.Indexes
  candidates : ∀ name, t.candidates name = t.table.named name

theorem candidates_declared (h : t.Indexes) (entry : LabelDeclaration) (name : String) :
    (t.declared entry).candidates name =
      t.candidates name ++ [entry].filter fun e => e.name == name := by
  have hkept : ((t.positions name).filterMap fun position =>
      (t.table.entries ++ [entry])[position]?) = t.candidates name := by
    apply List.filterMap_congr
    intro position hposition
    rcases (h name position).mp hposition with ⟨e, he, _⟩
    rw [List.getElem?_append_left (List.getElem?_eq_some_iff.mp he).fst]
  have hlast : (t.table.entries ++ [entry])[t.table.entries.length]? = some entry := by
    simp
  rw [IndexedLabels.candidates, positions_declared]
  by_cases hname : entry.name = name
  · rw [if_pos hname, List.filterMap_append]
    simp only [declared]
    rw [hkept]
    simp [hname]
  · rw [if_neg hname]
    simp only [declared]
    rw [hkept]
    simp [hname]

theorem InStep.declared (h : t.InStep) (entry : LabelDeclaration) :
    (t.declared entry).InStep where
  indexes := h.indexes.declared entry
  candidates name := by
    rw [candidates_declared h.indexes, h.candidates]
    exact (List.filter_append _ _).symm

theorem inStep_of_empty (h : t.Indexes) (hempty : t.table = {}) : t.InStep where
  indexes := h
  candidates name := by
    have hnone : t.candidates name = [] := by
      rw [IndexedLabels.candidates, hempty]
      simp
    rw [hnone, hempty]
    rfl

/-!
# References
-/

theorem foldl_deeper (best : LabelDeclaration) (rest : List LabelDeclaration) :
    rest.foldl deeper best ∈ best :: rest ∧
      ∀ e ∈ best :: rest, e.scope.depth ≤ (rest.foldl deeper best).scope.depth := by
  induction rest generalizing best with
  | nil =>
      simp
  | cons next rest ih =>
      rcases ih (deeper best next) with ⟨hmem, hdeepest⟩
      have hbest := hdeepest _ List.mem_cons_self
      rw [List.foldl_cons]
      unfold deeper at hmem hdeepest hbest ⊢
      by_cases hlower : next.scope.depth < best.scope.depth
      · simp only [if_pos hlower] at hmem hdeepest hbest ⊢
        grind
      · simp only [if_neg hlower] at hmem hdeepest hbest ⊢
        grind

theorem deepest?_eq_some {entries : List LabelDeclaration} {e : LabelDeclaration}
    (h : deepest? entries = some e) :
    e ∈ entries ∧ ∀ other ∈ entries, other.scope.depth ≤ e.scope.depth := by
  cases entries with
  | nil =>
      cases h
  | cons first rest =>
      cases h
      exact foldl_deeper first rest

theorem deepest?_eq_none {entries : List LabelDeclaration} (h : deepest? entries = none) :
    entries = [] := by
  cases entries with
  | nil =>
      rfl
  | cons first rest =>
      cases h

variable {name : String} {origin : BlockId}

theorem min?_distances {entries : List LabelDeclaration} {e : LabelDeclaration}
    (h : IsNearest entries origin e) :
    (entries.map fun other => other.scope.distance origin).min? =
      some (e.scope.distance origin) := by
  rw [List.min?_eq_some_iff]
  constructor
  · exact List.mem_map.mpr ⟨e, h.left, rfl⟩
  · intro distance hdistance
    rcases List.mem_map.mp hdistance with ⟨other, hother, rfl⟩
    exact h.right other hother

theorem length_closest {entries : List LabelDeclaration} {e : LabelDeclaration} :
    (entries.filter fun other => other.scope.distance origin == e.scope.distance origin).length =
      countLevel entries origin e :=
  List.countP_eq_length_filter.symm

theorem resolves_enclosing {entries : List LabelDeclaration} {e : LabelDeclaration}
    (hscopes : ∀ e ∈ entries, ∀ e' ∈ entries, e.scope = e'.scope → e = e')
    (h : deepest? (entries.filter fun e => e.scope.encloses origin) = some e) :
    Resolves name entries origin (.ok e.place) := by
  rcases deepest?_eq_some h with ⟨hmem, hdeepest⟩
  rcases List.mem_filter.mp hmem with ⟨he, hencloses⟩
  refine .enclosing he hencloses ?_
  intro other hother haround hne
  have hle := hdeepest other (List.mem_filter.mpr ⟨hother, haround⟩)
  apply Nat.lt_of_le_of_ne hle
  intro hdepth
  apply hne
  apply hscopes other hother e he
  exact BlockId.eq_of_encloses_of_depth haround hencloses hdepth

theorem resolves_sole {entries : List LabelDeclaration} {d : LabelDeclaration}
    (hapart : ∀ e ∈ entries, ¬ e.scope.encloses origin = true) (hd : IsNearest entries origin d) :
    Resolves name entries origin (sole name
      (entries.filter fun e => e.scope.distance origin == d.scope.distance origin)) := by
  have hlength : (List.filter _ _).length = countLevel entries origin d := length_closest
  cases hclosest : entries.filter fun e =>
      e.scope.distance origin == d.scope.distance origin with
  | nil =>
      have hmem := List.filter_eq_nil_iff.mp hclosest d hd.left
      simp at hmem
  | cons e rest =>
      have hmem : e ∈ entries.filter fun e =>
          e.scope.distance origin == d.scope.distance origin := by
        rw [hclosest]
        exact List.mem_cons_self
      rcases List.mem_filter.mp hmem with ⟨he, hsame⟩
      have hnearest : IsNearest entries origin e := by
        refine ⟨he, ?_⟩
        rw [beq_iff_eq.mp hsame]
        exact hd.right
      rw [hclosest, ← hnearest.countLevel_eq hd] at hlength
      cases rest with
      | nil =>
          exact .nearest hapart hnearest hlength.symm
      | cons next more =>
          change Resolves name _ origin (.error (.labelAmbiguous name (more.length + 2)))
          have hseveral : more.length + 2 = countLevel entries origin e := hlength
          rw [hseveral]
          refine .ambiguous hapart hnearest ?_
          omega

theorem resolves_resolve
    (hscopes : ∀ e ∈ t.candidates name, ∀ e' ∈ t.candidates name, e.scope = e'.scope → e = e') :
    Resolves name (t.candidates name) origin (t.resolve name origin) := by
  simp only [resolve]
  split
  · rename_i hempty
    exact .never (List.isEmpty_iff.mp hempty)
  · rename_i hsome
    split
    · rename_i e hfound
      exact resolves_enclosing hscopes hfound
    · rename_i hfound
      have hne : t.candidates name ≠ [] := by
        intro hnil
        exact hsome (List.isEmpty_iff.mpr hnil)
      rcases IsNearest.exists_of_ne_nil origin hne with ⟨d, hd⟩
      rw [min?_distances hd, Option.getD_some]
      exact resolves_sole (List.filter_eq_nil_iff.mp (deepest?_eq_none hfound)) hd

theorem InStep.resolve_eq (h : t.InStep)
    (hscopes : ∀ e ∈ t.table.named name, ∀ e' ∈ t.table.named name, e.scope = e'.scope → e = e') :
    t.resolve name origin = t.table.resolve name origin := by
  symm
  rw [Labels.resolve_iff hscopes, ← h.candidates]
  apply resolves_resolve
  rw [h.candidates]
  exact hscopes

end IndexedLabels
end Stimulus
