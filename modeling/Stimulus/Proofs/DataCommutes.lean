import Stimulus.Proofs.BuildParts

/-!
# Data operations among other commands

## Two builds in one

A build within a phase is two builds side by side: that of its data operations and
that of its other commands.  Neither sees what the other does, since code labels
and data labels stand in different scopes.

## Runs

A run within a phase answers and does what its data operations and its other commands
come to, each performed without the others.
-/

namespace Stimulus

open Checked

/-!
# Labels
-/

namespace Labels

variable {t t' : Labels} {name : String}

def addressed (t : Labels) : List LabelDeclaration :=
  t.entries.filter fun e => e.place.address?.isSome

theorem addressed_append (t : Labels) (added : List LabelDeclaration) :
    (mk (t.entries ++ added)).addressed =
      t.addressed ++ added.filter fun e => e.place.address?.isSome :=
  List.filter_append _ _

theorem code_append (t : Labels) (added : List LabelDeclaration) :
    (mk (t.entries ++ added)).code =
      t.code ++ added.filter fun e => e.place.address?.isNone :=
  List.filter_append _ _

theorem addressed_append_code (t : Labels) : (t.addressed ++ t.code).Perm t.entries := by
  unfold addressed code
  simp only [← Option.not_isSome]
  exact List.filter_append_perm _ _

private theorem any_filter_eq {α : Type} {l : List α} {p q : α → Bool}
    (h : ∀ a ∈ l, p a = true → q a = true) : (l.filter q).any p = l.any p := by
  rw [Bool.eq_iff_iff, List.any_eq_true, List.any_eq_true]
  constructor
  · intro hparts
    rcases hparts with ⟨a, ha, hp⟩
    exact ⟨a, (List.mem_filter.mp ha).left, hp⟩
  · intro hparts
    rcases hparts with ⟨a, ha, hp⟩
    exact ⟨a, List.mem_filter.mpr ⟨ha, h a ha hp⟩, hp⟩

theorem declareAt_eq (h : t.WellScoped) {scope : BlockId} (hscope : scope ≠ .root)
    (position : Nat) :
    t.declareAt name scope position =
      if t.code.any fun e => e.name == name && e.scope == scope then
        .error (.labelDeclaredTwice name scope)
      else .ok ⟨t.entries ++ [⟨name, scope, .code scope position⟩]⟩ := by
  unfold declareAt declare code
  rw [any_filter_eq]
  intro e he hsame
  simp only [Bool.and_eq_true, beq_iff_eq] at hsame
  cases hplace : e.place with
  | code block position =>
      rfl
  | data address =>
      exact absurd (hsame.right.symm.trans (h.root_of_address he hplace)) hscope

theorem declareAddress_eq (h : t.WellScoped) (address : UInt64) :
    t.declareAddress name address =
      if t.addressed.any fun e => e.name == name && e.scope == .root then
        .error (.labelDeclaredTwice name .root)
      else .ok ⟨t.entries ++ [⟨name, .root, .data address⟩]⟩ := by
  unfold declareAddress declare addressed
  rw [any_filter_eq]
  intro e he hsame
  simp only [Bool.and_eq_true, beq_iff_eq] at hsame
  have hplaced := h.placed e he
  unfold LabelDeclaration.Placed at hplaced
  cases hplace : e.place with
  | code block position =>
      rw [hplace] at hplaced
      exact absurd (hplaced.left.symm.trans hsame.right) hplaced.right
  | data address =>
      rfl

end Labels

/-!
# Two builds side by side
-/

namespace Context

structure Sound (c : Context) : Prop where
  rooted : Rooted c
  labels : c.labels.WellScoped

theorem Sound.initially (name : String) (model : Model) (options : Options)
    (comments : CommentTokens) : Sound (start name model options comments) where
  rooted := Rooted.start name model options comments
  labels := ⟨by simp [start], by simp [start]⟩

theorem Sound.perform {c : Context} (h : Sound c) (command : Command) :
    Sound (c.perform command).2 :=
  ⟨h.rooted.step (c.perform_step command), run_wellScoped h.rooted h.labels [command]⟩

theorem Sound.run {c : Context} (h : Sound c) (commands : List Command) :
    Sound (c.run commands) :=
  ⟨run_rooted h.rooted commands, run_wellScoped h.rooted h.labels commands⟩

def labelsAfter (labels : Labels) (data : Data.Writer) : Data.Operation → Except Refusal Labels
  | .label name => do
      let address ← data.addressHere
      (labels.declareAddress name address).mapError .structural
  | _ => .ok labels

def performOnData (labels : Labels) (data : Data.Writer) (operation : Data.Operation) :
    Except Refusal (Option UInt64 × Labels × Data.Writer) := do
  let labels ← labelsAfter labels data operation
  let (address, data) ← data.perform operation
  return (address, labels, data)

theorem performData_withParts (c : Context) (labels : Labels) (data : Data.Writer)
    (operation : Data.Operation) :
    (c.withParts labels data).performData operation =
      (performOnData labels data operation).map fun t => (t.1, c.withParts t.2.1 t.2.2) := by
  have hbind : (c.withParts labels data).performData operation =
      (labelsAfter labels data operation >>= fun declared =>
        data.perform operation >>= fun t => .ok (t.1, c.withParts declared t.2)) := by
    unfold performData labelsAfter
    cases operation with
    | label name =>
        change (data.addressHere >>= _) = (data.addressHere >>= _) >>= _
        rw [bind_assoc]
        rfl
    | _ =>
        rfl
  rw [hbind, performOnData]
  cases labelsAfter labels data operation with
  | error cause =>
      rfl
  | ok declared =>
      cases data.perform operation with
      | error cause =>
          rfl
      | ok t =>
          rfl

theorem labelsAfter_congr {t t' : Labels} (h : t.WellScoped) (h' : t'.WellScoped)
    (haddressed : t.addressed = t'.addressed) (data : Data.Writer) (operation : Data.Operation) :
    (∃ cause, labelsAfter t data operation = .error cause ∧
        labelsAfter t' data operation = .error cause) ∨
      ∃ added : List LabelDeclaration, (∀ e ∈ added, e.place.address?.isSome = true) ∧
        labelsAfter t data operation = .ok ⟨t.entries ++ added⟩ ∧
        labelsAfter t' data operation = .ok ⟨t'.entries ++ added⟩ := by
  cases operation with
  | label name =>
      unfold labelsAfter
      cases data.addressHere with
      | error cause =>
          exact Or.inl ⟨cause, rfl, rfl⟩
      | ok address =>
          simp only [bind, Except.bind]
          rw [Labels.declareAddress_eq h, Labels.declareAddress_eq h', haddressed]
          by_cases hdeclared : (t'.addressed.any fun e => e.name == name && e.scope == .root) = true
          · rw [if_pos hdeclared, if_pos hdeclared]
            exact Or.inl ⟨_, rfl, rfl⟩
          · rw [if_neg hdeclared, if_neg hdeclared]
            refine Or.inr ⟨[⟨name, .root, .data address⟩], ?_, rfl, rfl⟩
            intro e he
            rw [List.mem_singleton.mp he]
            rfl
  | _ =>
      refine Or.inr ⟨[], ?_, ?_, ?_⟩
      · intro e he
        cases he
      · rw [List.append_nil]
        rfl
      · rw [List.append_nil]
        rfl

theorem performOnData_congr {t t' : Labels} (h : t.WellScoped) (h' : t'.WellScoped)
    (haddressed : t.addressed = t'.addressed) (data : Data.Writer) (operation : Data.Operation) :
    (∃ cause, performOnData t data operation = .error cause ∧
        performOnData t' data operation = .error cause) ∨
      ∃ address added next, (∀ e ∈ added, e.place.address?.isSome = true) ∧
        performOnData t data operation = .ok (address, ⟨t.entries ++ added⟩, next) ∧
        performOnData t' data operation = .ok (address, ⟨t'.entries ++ added⟩, next) := by
  unfold performOnData
  rcases labelsAfter_congr h h' haddressed data operation with
    ⟨cause, hleft, hright⟩ | ⟨added, hadded, hleft, hright⟩
  · rw [hleft, hright]
    exact Or.inl ⟨cause, rfl, rfl⟩
  · rw [hleft, hright]
    cases data.perform operation with
    | error cause =>
        exact Or.inl ⟨cause, rfl, rfl⟩
    | ok placed =>
        exact Or.inr ⟨placed.1, added, placed.2, hadded, rfl, rfl⟩

def answersTo (c : Context) (p : Command → Bool) : List Command → List (Except Refusal Reply)
  | [] => []
  | command :: rest =>
      let (outcome, next) := c.perform command
      if p command then outcome :: next.answersTo p rest else next.answersTo p rest

/-- The context `c` is made of the trees of `other` and of the data of `data`, and has
the labels of both. -/
structure Joins (c other data : Context) : Prop where
  same : c = other.withParts c.labels data.data
  code : c.labels.code = other.labels.code
  addressed : c.labels.addressed = data.labels.addressed
  sound : Sound c
  otherSound : Sound other
  dataSound : Sound data

namespace Joins

variable {c other data : Context}

theorem refl (h : Sound c) : Joins c c c :=
  ⟨rfl, rfl, rfl, h, h, h⟩

theorem label_withParts (c : Context) (labels : Labels) (data : Data.Writer) (name : String) :
    (c.withParts labels data).label name =
      ((labels.declareAt name c.top.head.id c.top.children.length).mapError .structural).map
        fun labels => (c.push (.label name)).withParts labels data := by
  unfold label
  change ((labels.declareAt name c.top.head.id c.top.children.length).mapError _ >>= _) = _
  cases labels.declareAt name c.top.head.id c.top.children.length with
  | error cause =>
      rfl
  | ok declared =>
      have hpush : (c.withParts declared data).push (.label name) =
        (c.push (.label name)).withParts declared data := push_withParts _
      exact congrArg Except.ok hpush

theorem perform_label (h : Joins c other data) (name : String) :
    (c.perform (.label name)).1 = (other.perform (.label name)).1 ∧
      Joins (c.perform (.label name)).2 (other.perform (.label name)).2 data := by
  have hc : c.label name =
      ((c.labels.declareAt name other.top.head.id other.top.children.length).mapError
        .structural).map fun labels => (other.push (.label name)).withParts labels data.data := by
    conv_lhs => rw [h.same]
    exact label_withParts other _ _ name
  have hother := label_withParts other other.labels other.data name
  change other.label name = _ at hother
  have hscope := h.otherSound.rooted.top
  have hsound := h.sound.perform (.label name)
  have hotherSound := h.otherSound.perform (.label name)
  rw [Labels.declareAt_eq h.sound.labels hscope, h.code] at hc
  rw [Labels.declareAt_eq h.otherSound.labels hscope] at hother
  by_cases hdeclared : (other.labels.code.any fun e =>
      e.name == name && e.scope == other.top.head.id) = true
  · rw [if_pos hdeclared] at hc hother
    rw [perform, perform, hc, hother]
    exact ⟨rfl, h⟩
  · rw [if_neg hdeclared] at hc hother
    rw [perform, hc] at hsound ⊢
    rw [perform, hother] at hotherSound ⊢
    refine ⟨rfl, rfl, ?_, ?_, hsound, hotherSound, h.dataSound⟩
    · change (Labels.mk (c.labels.entries ++ [_])).code =
        (Labels.mk (other.labels.entries ++ [_])).code
      rw [Labels.code_append, Labels.code_append, h.code]
    · change (Labels.mk (c.labels.entries ++ [_])).addressed = data.labels.addressed
      rw [Labels.addressed_append, h.addressed]
      exact List.append_nil _

theorem perform_tree (h : Joins c other data) {command : Command}
    (htree : command.isData = false) (hphase : command.inPhase = true) :
    (c.perform command).1 = (other.perform command).1 ∧
      Joins (c.perform command).2 (other.perform command).2 data := by
  by_cases hlabel : ∃ name, command = .label name
  · rcases hlabel with ⟨name, rfl⟩
    exact h.perform_label name
  · have hlabel := fun name hname => hlabel ⟨name, hname⟩
    have hc : c.perform command = ((other.perform command).1,
        (other.perform command).2.withParts c.labels data.data) := by
      conv_lhs => rw [h.same]
      exact perform_withParts htree hphase hlabel
    have hlabels : (other.perform command).2.labels = other.labels := by
      rcases labels_of_step (other.perform_step command) with
        hkept | ⟨name, hname, _⟩ | ⟨name, hname, _⟩
      · exact hkept
      · exact absurd hname (hlabel name)
      · rw [hname] at htree
        cases htree
    have hsound := h.sound.perform command
    rw [hc] at hsound ⊢
    refine ⟨rfl, rfl, ?_, h.addressed, hsound, h.otherSound.perform command, h.dataSound⟩
    rw [hlabels]
    exact h.code

theorem perform_data (h : Joins c other data) (operation : Data.Operation) :
    (c.perform (.data operation)).1 = (data.perform (.data operation)).1 ∧
      Joins (c.perform (.data operation)).2 other (data.perform (.data operation)).2 := by
  have hc : c.performData operation = (performOnData c.labels data.data operation).map
      fun t => (t.1, other.withParts t.2.1 t.2.2) := by
    conv_lhs => rw [h.same]
    exact performData_withParts other _ _ operation
  have hdata := performData_withParts data data.labels data.data operation
  change data.performData operation = _ at hdata
  have hsound := h.sound.perform (.data operation)
  have hdataSound := h.dataSound.perform (.data operation)
  rcases performOnData_congr h.sound.labels h.dataSound.labels h.addressed data.data operation with
    ⟨cause, hleft, hright⟩ | ⟨address, added, next, hadded, hleft, hright⟩
  · rw [hleft] at hc
    rw [hright] at hdata
    rw [perform, perform, hc, hdata]
    exact ⟨rfl, h⟩
  · rw [hleft] at hc
    rw [hright] at hdata
    rw [perform, hc] at hsound ⊢
    rw [perform, hdata] at hdataSound ⊢
    refine ⟨rfl, rfl, ?_, ?_, hsound, h.otherSound, hdataSound⟩
    · change (Labels.mk (c.labels.entries ++ added)).code = other.labels.code
      have hnone : (added.filter fun e => e.place.address?.isNone) = [] := by
        apply List.filter_eq_nil_iff.mpr
        intro e he
        simpa [Option.isSome_iff_ne_none] using hadded e he
      rw [Labels.code_append, h.code, hnone, List.append_nil]
    · change (Labels.mk (c.labels.entries ++ added)).addressed =
        (Labels.mk (data.labels.entries ++ added)).addressed
      rw [Labels.addressed_append, Labels.addressed_append, h.addressed]

theorem run (h : Joins c other data) {commands : List Command}
    (hphase : ∀ command ∈ commands, command.inPhase = true) :
    c.answersTo (fun command => command.isData) commands =
        data.outcomes (commands.filter fun command => command.isData) ∧
      c.answersTo (fun command => !command.isData) commands =
        other.outcomes (commands.filter fun command => !command.isData) ∧
      Joins (c.run commands) (other.run (commands.filter fun command => !command.isData))
        (data.run (commands.filter fun command => command.isData)) := by
  induction commands generalizing c other data with
  | nil =>
      exact ⟨rfl, rfl, h⟩
  | cons command rest ih =>
      have hrest := fun command hcommand => hphase command (List.mem_cons_of_mem _ hcommand)
      cases hdata : command.isData with
      | true =>
          cases command with
          | data operation =>
              rcases h.perform_data operation with ⟨houtcome, hnext⟩
              rcases ih hnext hrest with ⟨hdataAnswers, hotherAnswers, hrun⟩
              simp only [answersTo, outcomes, List.filter_cons, hdata, if_true, Bool.not_true,
                Bool.false_eq_true, if_false, run_cons, houtcome, hdataAnswers]
              exact ⟨trivial, hotherAnswers, hrun⟩
          | _ => cases hdata
      | false =>
          rcases h.perform_tree hdata (hphase command List.mem_cons_self) with ⟨houtcome, hnext⟩
          rcases ih hnext hrest with ⟨hdataAnswers, hotherAnswers, hrun⟩
          simp only [answersTo, outcomes, List.filter_cons, hdata, Bool.not_false, if_true,
            Bool.false_eq_true, if_false, run_cons, houtcome, hotherAnswers]
          exact ⟨hdataAnswers, trivial, hrun⟩

end Joins

end Context
end Stimulus
