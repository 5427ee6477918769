import Stimulus.Proofs.OpenScopes

/-!
# Scopes of labels

## Declarations

Code labels are declared in blocks and data labels at the root of the template,
so that the two never share a scope.

## Addresses

The address of a name is that of its data label.  The code labels of the same
name have no part in it.
-/

namespace Stimulus

def LabelDeclaration.Placed (e : LabelDeclaration) : Prop :=
  match e.place with
  | .code block _ => e.scope = block ∧ block ≠ .root
  | .data _ => e.scope = .root

namespace Labels

variable {t t' : Labels} {entry : LabelDeclaration} {name : String}

theorem declare_eq_ok :
    t.declare entry = .ok t' ↔
      (∀ e ∈ t.entries, e.name = entry.name → e.scope ≠ entry.scope) ∧
        t' = ⟨t.entries ++ [entry]⟩ := by
  unfold declare
  by_cases h : (t.entries.any fun e => e.name == entry.name && e.scope == entry.scope) = true
  · rw [if_pos h]
    constructor
    · intro heq
      cases heq
    · intro hnew
      rcases List.any_eq_true.mp h with ⟨e, he, hsame⟩
      simp only [Bool.and_eq_true, beq_iff_eq] at hsame
      exact absurd hsame.right (hnew.left e he hsame.left)
  · rw [if_neg h]
    constructor
    · intro heq
      cases heq
      refine ⟨?_, rfl⟩
      intro e he hname hscope
      exact h (List.any_eq_true.mpr ⟨e, he, by simp [hname, hscope]⟩)
    · intro hparts
      rcases hparts with ⟨_, rfl⟩
      rfl

/-- What holds of the declarations of every build. -/
structure WellScoped (t : Labels) : Prop where
  unique : ∀ e ∈ t.entries, ∀ e' ∈ t.entries, e.name = e'.name → e.scope = e'.scope → e = e'
  placed : ∀ e ∈ t.entries, e.Placed

namespace WellScoped

theorem declare (h : t.WellScoped) (hentry : entry.Placed) (hdeclare : t.declare entry = .ok t') :
    t'.WellScoped := by
  rcases declare_eq_ok.mp hdeclare with ⟨hnew, rfl⟩
  constructor
  · intro e he e' he' hname hscope
    rcases List.mem_append.mp he with hold | hlast
    · rcases List.mem_append.mp he' with hold' | hlast'
      · exact h.unique e hold e' hold' hname hscope
      · rw [List.mem_singleton.mp hlast'] at hname hscope
        exact absurd hscope (hnew e hold hname)
    · rcases List.mem_append.mp he' with hold' | hlast'
      · rw [List.mem_singleton.mp hlast] at hname hscope
        exact absurd hscope.symm (hnew e' hold' hname.symm)
      · rw [List.mem_singleton.mp hlast, List.mem_singleton.mp hlast']
  · intro e he
    rcases List.mem_append.mp he with hold | hlast
    · exact h.placed e hold
    · rw [List.mem_singleton.mp hlast]
      exact hentry

theorem declareAt (h : t.WellScoped) {scope : BlockId} {position : Nat} (hscope : scope ≠ .root)
    (hdeclare : t.declareAt name scope position = .ok t') : t'.WellScoped := by
  have hplaced : LabelDeclaration.Placed ⟨name, scope, .code scope position⟩ := ⟨rfl, hscope⟩
  exact h.declare hplaced hdeclare

theorem declareAddress (h : t.WellScoped) {address : UInt64}
    (hdeclare : t.declareAddress name address = .ok t') : t'.WellScoped := by
  have hplaced : LabelDeclaration.Placed ⟨name, .root, .data address⟩ := rfl
  exact h.declare hplaced hdeclare

theorem root_of_address (h : t.WellScoped) {e : LabelDeclaration} (he : e ∈ t.entries)
    {address : UInt64} (hplace : e.place = .data address) : e.scope = .root := by
  have hplaced := h.placed e he
  unfold LabelDeclaration.Placed at hplaced
  rw [hplace] at hplaced
  exact hplaced

end WellScoped

/-!
# Resolution at the root
-/

theorem mem_named {e : LabelDeclaration} :
    e ∈ t.named name ↔ e ∈ t.entries ∧ e.name = name := by
  simp [named]

theorem eq_of_mem_named
    (h : ∀ e ∈ t.entries, ∀ e' ∈ t.entries, e.name = e'.name → e.scope = e'.scope → e = e') :
    ∀ e ∈ t.named name, ∀ e' ∈ t.named name, e.scope = e'.scope → e = e' := by
  intro e he e' he' hscope
  rcases mem_named.mp he with ⟨hmem, hname⟩
  rcases mem_named.mp he' with ⟨hmem', hname'⟩
  exact h e hmem e' hmem' (hname.trans hname'.symm) hscope

theorem mem_of_resolve {origin : BlockId} {place : LabelPlace}
    (h : t.resolve name origin = .ok place) :
    ∃ e ∈ t.entries, e.name = name ∧ e.place = place := by
  simp only [resolve] at h
  split at h
  · cases h
  · split at h
    · rename_i e hfound
      cases h
      have hmem := (List.mem_filter.mp (List.mem_of_find?_eq_some hfound)).left
      rcases mem_named.mp hmem with ⟨he, hname⟩
      exact ⟨e, he, hname, rfl⟩
    · split at h
      · rename_i e hnearest
        cases h
        have hmem : e ∈ nearest (t.named name) origin := by
          rw [hnearest]
          exact List.mem_singleton_self e
        rcases mem_named.mp (List.mem_filter.mp hmem).left with ⟨he, hname⟩
        exact ⟨e, he, hname, rfl⟩
      · cases h

theorem encloses_root {b : BlockId} : b.encloses .root = true ↔ b = .root := by
  rcases b with ⟨path⟩
  cases path <;> simp [BlockId.encloses, BlockId.root]

theorem enclosing?_root {e : LabelDeclaration} (h : enclosing? (t.named name) .root = some e) :
    e ∈ t.entries ∧ e.name = name ∧ e.scope = .root := by
  have hmem := List.mem_of_find?_eq_some h
  rcases List.mem_filter.mp hmem with ⟨hnamed, hencloses⟩
  rcases mem_named.mp hnamed with ⟨he, hname⟩
  exact ⟨he, hname, encloses_root.mp hencloses⟩

theorem enclosing?_root_of_mem (h : t.WellScoped) {e : LabelDeclaration} (he : e ∈ t.entries)
    (hname : e.name = name) (hscope : e.scope = .root) :
    enclosing? (t.named name) .root = some e := by
  have haround : e ∈ (t.named name).filter fun e => e.scope.encloses .root :=
    List.mem_filter.mpr ⟨mem_named.mpr ⟨he, hname⟩, encloses_root.mpr hscope⟩
  cases hfound : enclosing? (t.named name) .root with
  | some e' =>
      rcases enclosing?_root hfound with ⟨he', hname', hscope'⟩
      rw [h.unique e' he' e he (hname'.trans hname.symm) (hscope'.trans hscope.symm)]
  | none =>
      have hdeepest := List.find?_eq_none.mp hfound e haround
      apply absurd _ hdeepest
      apply List.all_eq_true.mpr
      intro other hother
      have hother := encloses_root.mp (List.mem_filter.mp hother).right
      simp [hother, hscope]

theorem dataAddress_eq_ok (h : t.WellScoped) {address : UInt64} :
    t.dataAddress name = .ok address ↔ ⟨name, .root, .data address⟩ ∈ t.entries := by
  constructor
  · intro haddress
    have hresolve : t.resolve name .root = .ok (.data address) := by
      unfold dataAddress at haddress
      split at haddress
      · cases haddress
        assumption
      all_goals cases haddress
    rcases mem_of_resolve hresolve with ⟨⟨_, scope, _⟩, he, rfl, rfl⟩
    have hscope : scope = .root := h.root_of_address he rfl
    rw [hscope] at he
    exact he
  · intro he
    have hfound := enclosing?_root_of_mem h he rfl rfl
    have hsome : (t.named name).isEmpty = false := by
      rw [List.isEmpty_eq_false_iff_exists_mem]
      exact ⟨_, mem_named.mpr ⟨he, rfl⟩⟩
    unfold dataAddress resolve
    simp [hsome, hfound]

end Labels

namespace Context

/-!
# Declarations of a run
-/

theorem labels_of_step {c next : Context} {command : Command}
    {outcome : Except Refusal Reply} (h : Step c command outcome next) :
    next.labels = c.labels ∨
      (∃ name, command = .label name ∧ outcome = .ok .done ∧
        c.labels.declareAt name c.top.head.id c.top.children.length = .ok next.labels) ∨
      (∃ name, command = .data (.label name) ∧ outcome = .ok (.address c.data.cursor) ∧
        c.labels.declareAddress name c.data.cursor = .ok next.labels) := by
  cases h with
  | labelled hlabels =>
      exact Or.inr (Or.inl ⟨_, rfl, rfl, by simpa [push] using hlabels⟩)
  | dataLabelled _ hlabels =>
      exact Or.inr (Or.inr ⟨_, rfl, rfl, hlabels⟩)
  | _ =>
      exact Or.inl (by simp [push, access])

theorem labels_of_dataLabel {c next : Context} {name : String} {reply : Reply}
    (h : Step c (.data (.label name)) (.ok reply) next) :
    reply = .address c.data.cursor ∧
      c.labels.declareAddress name c.data.cursor = .ok next.labels := by
  cases h with
  | answered hcommand => cases hcommand
  | placed hleaf => cases hleaf
  | streamAccessed hcommand _ => cases hcommand
  | dataPerformed hoperation _ => exact absurd rfl (hoperation name)
  | dataLabelled _ hlabels => exact ⟨rfl, hlabels⟩

theorem run_wellScoped {c : Context} (hrooted : Rooted c) (hlabels : c.labels.WellScoped)
    (commands : List Command) : (c.run commands).labels.WellScoped := by
  apply And.right
  apply run_invariant (I := fun next => Rooted next ∧ next.labels.WellScoped) _ ⟨hrooted, hlabels⟩
  intro before command outcome next hinvariant hstep
  rcases hinvariant with ⟨hrooted, hbefore⟩
  refine ⟨hrooted.step hstep, ?_⟩
  rcases labels_of_step hstep with hsame | ⟨name, _, _, hdeclare⟩ | ⟨name, _, _, hdeclare⟩
  · rw [hsame]
    exact hbefore
  · exact hbefore.declareAt hrooted.top hdeclare
  · exact hbefore.declareAddress hdeclare

/-- The name is the data label of `address` in the run. -/
def LabelsData (c : Context) (commands : List Command) (name : String) (address : UInt64) :
    Prop :=
  ∃ before, c.Accepted commands before (.data (.label name)) (.address address)

theorem mem_labels_of_step {c next : Context} {command : Command}
    {outcome : Except Refusal Reply} {e : LabelDeclaration} (he : e ∈ c.labels.entries)
    (h : Step c command outcome next) : e ∈ next.labels.entries := by
  rcases labels_of_step h with hsame | ⟨name, _, _, hdeclare⟩ | ⟨name, _, _, hdeclare⟩
  · rw [hsame]
    exact he
  · rw [(Labels.declare_eq_ok.mp hdeclare).right]
    exact List.mem_append_left _ he
  · rw [(Labels.declare_eq_ok.mp hdeclare).right]
    exact List.mem_append_left _ he

theorem labelsData_iff {c : Context} (hstart : c.labels.entries = []) {commands : List Command}
    {name : String} {address : UInt64} :
    c.LabelsData commands name address ↔
      ⟨name, .root, .data address⟩ ∈ (c.run commands).labels.entries := by
  constructor
  · intro hparts
    rcases hparts with ⟨before, haccepted⟩
    apply haccepted.lasting (P := fun next => ⟨name, .root, .data address⟩ ∈ next.labels.entries)
    · intro next hstep
      rcases labels_of_dataLabel hstep with ⟨hreply, hdeclare⟩
      cases hreply
      rw [(Labels.declare_eq_ok.mp hdeclare).right]
      exact List.mem_append_right _ (List.mem_singleton_self _)
    · intro before command outcome next he hstep
      exact mem_labels_of_step he hstep
  · intro he
    have hdeclared := exists_accepted
      (P := fun next => ⟨name, .root, .data address⟩ ∈ next.labels.entries)
      (R := fun _ command reply => command = .data (.label name) ∧ reply = .address address)
      ?_ ?_ he
    · rcases hdeclared with ⟨before, _, _, haccepted, rfl, rfl⟩
      exact ⟨before, haccepted⟩
    · intro before command outcome hstep hnext
      rcases labels_of_step hstep with
        hsame | ⟨other, _, _, hdeclare⟩ | ⟨other, hcommand, hreply, hdeclare⟩
      · rw [hsame] at hnext
        exact Or.inl hnext
      · rw [(Labels.declare_eq_ok.mp hdeclare).right] at hnext
        rcases List.mem_append.mp hnext with hold | hlast
        · exact Or.inl hold
        · have hplace := congrArg LabelDeclaration.place (List.mem_singleton.mp hlast)
          cases hplace
      · rw [(Labels.declare_eq_ok.mp hdeclare).right] at hnext
        rcases List.mem_append.mp hnext with hold | hlast
        · exact Or.inl hold
        · cases List.mem_singleton.mp hlast
          exact Or.inr ⟨_, hreply, hcommand, rfl⟩
    · rw [hstart]
      simp

theorem labelsData_iff_dataAddress {name : String} {model : Model} {options : Options}
    {comments : CommentTokens} {commands : List Command} {label : String} {address : UInt64} :
    (start name model options comments).LabelsData commands label address ↔
      ((start name model options comments).run commands).labels.dataAddress label =
        .ok address := by
  have hscoped : ((start name model options comments).run commands).labels.WellScoped :=
    run_wellScoped (Rooted.start name model options comments) ⟨by simp [start], by simp [start]⟩
      commands
  rw [labelsData_iff rfl, Labels.dataAddress_eq_ok hscoped]

end Context
end Stimulus
