import Stimulus.Proofs.BlockOrder
import Stimulus.Proofs.LabelScopes

/-!
# Order of declarations

## Resolution

What a name resolves to depends on the declarations and not on their order.  Of the
scopes that enclose a block there is one at each depth, so that the deepest one is
found wherever it stands.
-/

namespace Stimulus

theorem find?_eq_of_perm {α : Type} {l l' : List α} {p : α → Bool} (h : l.Perm l')
    (hunique : ∀ a ∈ l, ∀ b ∈ l, p a = true → p b = true → a = b) : l.find? p = l'.find? p := by
  cases hfound : l.find? p with
  | none =>
      symm
      rw [List.find?_eq_none] at hfound ⊢
      intro a ha
      exact hfound a (h.mem_iff.mpr ha)
  | some a =>
      have ha := List.mem_of_find?_eq_some hfound
      have hpa := List.find?_some hfound
      cases hfound' : l'.find? p with
      | none =>
          exact absurd hpa (List.find?_eq_none.mp hfound' a (h.mem_iff.mp ha))
      | some b =>
          have hb := h.mem_iff.mpr (List.mem_of_find?_eq_some hfound')
          rw [hunique a ha b hb hpa (List.find?_some hfound')]

theorem BlockId.eq_of_encloses_of_depth {a b d : BlockId} (ha : a.encloses d = true)
    (hb : b.encloses d = true) (hdepth : a.depth = b.depth) : a = b := by
  rcases a with ⟨a⟩
  rcases b with ⟨b⟩
  have hinitial : a <+: b :=
    List.prefix_of_prefix_length_le (encloses_iff.mp ha) (encloses_iff.mp hb) (Nat.le_of_eq hdepth)
  rw [hinitial.eq_of_length hdepth]

namespace Labels

variable {t t' : Labels} {name : String} {origin : BlockId}
variable {candidates candidates' : List LabelDeclaration}

theorem named_perm (h : t.entries.Perm t'.entries) (name : String) :
    (t.named name).Perm (t'.named name) :=
  h.filter _

theorem enclosing?_perm (h : candidates.Perm candidates')
    (hunique : ∀ e ∈ candidates, ∀ e' ∈ candidates, e.scope = e'.scope → e = e') :
    enclosing? candidates origin = enclosing? candidates' origin := by
  have haround : (candidates.filter fun e => e.scope.encloses origin).Perm
      (candidates'.filter fun e => e.scope.encloses origin) := h.filter _
  unfold enclosing?
  simp only [haround.all_eq]
  apply find?_eq_of_perm haround
  intro e he e' he' hdeepest hdeepest'
  rcases List.mem_filter.mp he with ⟨hmem, hencloses⟩
  rcases List.mem_filter.mp he' with ⟨hmem', hencloses'⟩
  have hle := List.all_eq_true.mp hdeepest e' (haround.mem_iff.mp he')
  have hle' := List.all_eq_true.mp hdeepest' e (haround.mem_iff.mp he)
  apply hunique e hmem e' hmem'
  apply BlockId.eq_of_encloses_of_depth hencloses hencloses'
  exact Nat.le_antisymm (by simpa using hle') (by simpa using hle)

theorem nearest_perm (h : candidates.Perm candidates') (origin : BlockId) :
    (nearest candidates origin).Perm (nearest candidates' origin) := by
  unfold nearest
  simp only [h.all_eq]
  exact h.filter _

theorem resolve_perm
    (hscopes : ∀ e ∈ t.entries, ∀ e' ∈ t.entries, e.name = e'.name → e.scope = e'.scope → e = e')
    (h : t.entries.Perm t'.entries) (name : String) (origin : BlockId) :
    t.resolve name origin = t'.resolve name origin := by
  have hnamed := named_perm h name
  have hunique : ∀ e ∈ t.named name, ∀ e' ∈ t.named name, e.scope = e'.scope → e = e' :=
    eq_of_mem_named hscopes
  have hnearest := nearest_perm hnamed origin
  simp only [resolve]
  rw [hnamed.isEmpty_eq, enclosing?_perm hnamed hunique]
  cases enclosing? (t'.named name) origin with
  | some e =>
      rfl
  | none =>
      have hlength := hnearest.length_eq
      rcases hfound : nearest (t.named name) origin with _ | ⟨e, _ | ⟨d, rest⟩⟩
      · rw [hfound] at hnearest
        rw [List.nil_perm.mp hnearest]
      · rw [hfound] at hnearest
        rw [List.singleton_perm.mp hnearest]
      · rw [hfound] at hlength
        rcases hfound' : nearest (t'.named name) origin with _ | ⟨e', _ | ⟨d', rest'⟩⟩
        · rw [hfound'] at hlength
          cases hlength
        · rw [hfound'] at hlength
          simp at hlength
        · rw [hfound'] at hlength
          simp only [hlength]

theorem dataAddress_congr (h : ∀ name origin, t.resolve name origin = t'.resolve name origin)
    (name : String) : t.dataAddress name = t'.dataAddress name := by
  unfold dataAddress
  rw [h]

end Labels
end Stimulus
