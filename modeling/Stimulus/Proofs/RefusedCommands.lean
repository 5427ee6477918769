import Stimulus.Proofs.DraftCalls
import Stimulus.Proofs.Sealing

/-!
# Refused commands

## Commands in place

Performed in place, a command makes each change when its turn comes.  All the same, it
comes to what `Context.perform` says, and if it is refused it leaves the draft as it
was.  Only the end of a block may lose a block.

## Runs

Every command keeps what this rests on, so that it holds at every point of a build.
-/

namespace Stimulus

open Checked InPlace

theorem Step.eq_of_refused {c next : Context} {command : Command} {cause : Refusal}
    (h : Step c command (.error cause) next) (hcommand : command ≠ .closeBlock) : next = c := by
  cases h with
  | refused => rfl
  | dropped _ => exact absurd rfl hcommand

namespace Draft

variable {d : Draft} {c : Context} {slots : OrderedMap String (List Nat)}

/-- A command in place comes to what `Context.perform` says, and a refused one leaves
the draft as it was. -/
structure Follows (d : Draft) (c : Context) (command : Command) : Prop where
  outcome : (d.perform command).1 = (c.perform command).1
  draft : ∃ slots, (d.perform command).2 = (c.perform command).2.draft slots
  index : (d.perform command).2.labels.InStep
  refused : command ≠ .closeBlock → ∀ cause, (d.perform command).1 = .error cause →
    (d.perform command).2 = d

theorem follows_of_declared (hindex : IndexedLabels.InStep ⟨c.labels, slots⟩) {command : Command}
    (entry : LabelDeclaration) (result : Except Refusal (Reply × Context))
    (hperform : (c.draft slots).perform command =
      settle (c.draft slots) (fun t => (t.1, t.2.draft (slotsWith c slots entry))) result)
    (hcontext : c.perform command = c.commit id result)
    (hlabels : ∀ t, result = .ok t → t.2.labels = ⟨c.labels.entries ++ [entry]⟩) :
    (c.draft slots).Follows c command := by
  cases result with
  | error cause =>
      refine ⟨?_, ?_, ?_, ?_⟩
      · rw [hperform, hcontext]
        rfl
      · rw [hperform, hcontext]
        exact ⟨slots, rfl⟩
      · rw [hperform]
        exact hindex
      · intro _ _ _
        rw [hperform]
        rfl
  | ok t =>
      refine ⟨?_, ?_, ?_, ?_⟩
      · rw [hperform, hcontext]
        rfl
      · rw [hperform, hcontext]
        exact ⟨slotsWith c slots entry, rfl⟩
      · have hdeclared := hindex.declared entry
        rw [hperform]
        change IndexedLabels.InStep ⟨t.2.labels, slotsWith c slots entry⟩
        rw [hlabels t rfl]
        exact hdeclared
      · intro _ cause hcause
        rw [hperform] at hcause
        cases hcause

theorem follows_label (hindex : IndexedLabels.InStep ⟨c.labels, slots⟩) (name : String) :
    (c.draft slots).Follows c (.label name) := by
  apply follows_of_declared hindex (c.top.declarationHere name)
    ((c.label name).map fun next => (.done, next))
  · rw [perform, Draft.command, done, call_bind, call_label hindex.indexes]
    cases c.label name with
    | error cause =>
        rfl
    | ok next =>
        rfl
  · rw [Context.perform]
    cases c.label name with
    | error cause =>
        rfl
    | ok next =>
        rfl
  · intro t ht
    rcases map_eq_ok.mp ht with ⟨next, hnext, rfl⟩
    rcases bind_eq_ok.mp hnext with ⟨labels, hlabels, hpushed⟩
    cases hpushed
    have hentries := (Labels.declare_eq_ok.mp (mapError_eq_ok.mp hlabels)).right
    simpa [Context.push, Scope.declarationHere] using hentries

theorem follows_dataLabel (hindex : IndexedLabels.InStep ⟨c.labels, slots⟩) (name : String) :
    (c.draft slots).Follows c (.data (.label name)) := by
  apply follows_of_declared hindex ⟨name, .root, .data c.data.cursor⟩
    ((c.performData (.label name)).map fun t =>
      ((t.1.map Reply.address).getD .done, t.2))
  · rw [perform, Draft.command, call_bind, call_dataLabel hindex.indexes]
    cases c.performData (.label name) with
    | error cause =>
        rfl
    | ok t =>
        rfl
  · rw [Context.perform]
    cases c.performData (.label name) with
    | error cause =>
        rfl
    | ok t =>
        rfl
  · intro t ht
    rcases map_eq_ok.mp ht with ⟨t', ht', rfl⟩
    have hdeclare := (Context.labels_of_dataLabel (Step.performData ht')).right
    exact (Labels.declare_eq_ok.mp hdeclare).right

theorem follows (hahead : EmptyAhead c) (hindex : IndexedLabels.InStep ⟨c.labels, slots⟩)
    (command : Command) : (c.draft slots).Follows c command := by
  by_cases hlabel : ∃ name, command = .label name
  · rcases hlabel with ⟨name, rfl⟩
    exact follows_label hindex name
  · by_cases hdata : ∃ name, command = .data (.label name)
    · rcases hdata with ⟨name, rfl⟩
      exact follows_dataLabel hindex name
    · have hperform : (c.draft slots).perform command = _ :=
        perform_eq hahead (fun name hc => hlabel ⟨name, hc⟩) fun name hc => hdata ⟨name, hc⟩
      have hlabels : (c.perform command).2.labels = c.labels := by
        rcases Context.labels_of_step (c.perform_step command) with
          hsame | ⟨name, hc, _⟩ | ⟨name, hc, _⟩
        · exact hsame
        · exact absurd ⟨name, hc⟩ hlabel
        · exact absurd ⟨name, hc⟩ hdata
      refine ⟨?_, ?_, ?_, ?_⟩
      · rw [hperform]
      · rw [hperform]
        exact ⟨slots, rfl⟩
      · rw [hperform]
        change IndexedLabels.InStep ⟨(c.perform command).2.labels, slots⟩
        rw [hlabels]
        exact hindex
      · intro hcommand cause hcause
        rw [hperform] at hcause ⊢
        have hstep := c.perform_step command
        rw [hcause] at hstep
        rw [hstep.eq_of_refused hcommand]

/-!
# Runs
-/

theorem phase_le_of_step {c next : Context} {command : Command} {outcome : Except Refusal Reply}
    (h : Step c command outcome next) : c.phase.index ≤ next.phase.index := by
  cases h with
  | advanced horder _ _ => exact Nat.le_of_lt horder
  | _ => simp [Context.push, Context.access]

theorem roots_modifyTop {c : Context} {f : Scope → Scope} {p : Phase} (hp : p ≠ c.phase) :
    (c.modifyTop f).roots.get p = c.roots.get p := by
  unfold Context.modifyTop
  cases c.scopes with
  | nil =>
      rw [PhaseTable.get_modify, if_neg (Ne.symm hp)]
  | cons s rest =>
      rfl

theorem roots_of_step {c next : Context} {command : Command} {outcome : Except Refusal Reply}
    (h : Step c command outcome next) {p : Phase} (hp : p ≠ c.phase) :
    next.roots.get p = c.roots.get p := by
  rcases h.tree with htree | ⟨s, rest, _, _, _, _, rfl⟩
  · cases htree with
    | kept htrees _ => rw [htrees.roots]
    | advanced _ _ hroots _ => rw [hroots]
    | changed _ htrees _ => rw [htrees.roots, roots_modifyTop hp]
    | opened hnext =>
        rw [hnext]
        exact roots_modifyTop hp
    | closed _ _ _ hnext =>
        rw [hnext]
        exact roots_modifyTop hp
  · rfl

theorem emptyAhead_of_step {c next : Context} {command : Command}
    {outcome : Except Refusal Reply} (h : EmptyAhead c) (hstep : Step c command outcome next) :
    EmptyAhead next := by
  intro p hp
  have hphase := phase_le_of_step hstep
  rw [roots_of_step hstep, h p (by omega)]
  intro hsame
  rw [hsame] at hp
  omega

/-- The draft is that of the context, and leads from every name to its declarations. -/
structure Tracks (d : Draft) (c : Context) : Prop where
  draft : ∃ slots, d = c.draft slots
  index : d.labels.InStep
  ahead : EmptyAhead c

namespace Tracks

theorem follows (h : d.Tracks c) (command : Command) : d.Follows c command := by
  rcases h.draft with ⟨slots, rfl⟩
  exact Draft.follows h.ahead h.index command

theorem step (h : d.Tracks c) (command : Command) :
    (d.perform command).2.Tracks (c.perform command).2 where
  draft := (h.follows command).draft
  index := (h.follows command).index
  ahead := emptyAhead_of_step h.ahead (c.perform_step command)

theorem run (h : d.Tracks c) (commands : List Command) :
    (d.run commands).Tracks (c.run commands) := by
  induction commands generalizing d c with
  | nil =>
      exact h
  | cons command rest ih =>
      exact ih (h.step command)

end Tracks

theorem start_tracks (name : String) (model : Model) (options : Options)
    (comments : CommentTokens) : (start name model options comments).Tracks
      (Context.start name model options comments) where
  draft := ⟨{}, rfl⟩
  index := by
    apply IndexedLabels.inStep_of_empty
    · intro label position
      have hpositions : (start name model options comments).labels.positions label = [] := rfl
      have hentries : (start name model options comments).labels.table.entries = [] := rfl
      rw [hpositions, hentries]
      simp
    · rfl
  ahead p _ := by
    cases p with
    | pre | run | post =>
        rfl

section

variable {name : String} {model : Model} {options : Options} {comments : CommentTokens}
variable {commands : List Command}

/-- Performed in place at any point of a build, a command other than the end of a block
that is refused leaves everything as it was; and so says `Context.perform`. -/
theorem unchanged_of_refused {c : Command} {cause : Refusal}
    (hcommand : c ≠ .closeBlock)
    (hcause : (((start name model options comments).run commands).perform c).1 = .error cause) :
    (((start name model options comments).run commands).perform c).2 =
        (start name model options comments).run commands ∧
      ((Context.start name model options comments).run commands).perform c =
        (.error cause, (Context.start name model options comments).run commands) := by
  have hfollows := ((start_tracks name model options comments).run commands).follows c
  refine ⟨hfollows.refused hcommand cause hcause, ?_⟩
  have houtcome := hfollows.outcome.symm.trans hcause
  have hstep := ((Context.start name model options comments).run commands).perform_step c
  rw [houtcome] at hstep
  exact Prod.ext houtcome (hstep.eq_of_refused hcommand)

/-- The root of a draft and its finished blocks are those that a context has in its table. -/
theorem roots_of_run :
    let d := (start name model options comments).run commands
    let c := (Context.start name model options comments).run commands
    d.root = c.roots.get c.phase ∧
      d.finished = c.phase.before.map (fun p => (c.roots.get p).block) ∧
      (finishAll.call d).1 = (do
        c.checkClosed
        return c.roots.toList.map Scope.block) := by
  intro d c
  have htracks : d.Tracks c := (start_tracks name model options comments).run commands
  rcases htracks.draft with ⟨slots, hd⟩
  rw [hd]
  exact ⟨rfl, rfl, call_finishAll htracks.ahead⟩

/-- A reference that follows the index of a draft is answered by the labels of the context. -/
theorem resolve_of_run (label : String) (origin : BlockId) :
    ((start name model options comments).run commands).labels.resolve label origin =
      ((Context.start name model options comments).run commands).labels.resolve label origin := by
  have htracks := (start_tracks name model options comments).run commands
  have hscoped : ((Context.start name model options comments).run commands).labels.WellScoped :=
    Context.run_wellScoped (Context.Rooted.start name model options comments)
      ⟨by simp [Context.start], by simp [Context.start]⟩ commands
  have htable : ((start name model options comments).run commands).labels.table =
      ((Context.start name model options comments).run commands).labels := by
    rcases htracks.draft with ⟨slots, hd⟩
    rw [hd]
    rfl
  rw [htracks.index.resolve_eq, htable]
  rw [htable]
  exact Labels.eq_of_mem_named hscoped.unique

end

theorem unchanged_of_refused_sample :
    let before : List Command := SampleBuild.commands.take 3
    let again : Command := .data (.label "table")
    let d := (start "sample" SampleBuild.model {} {}).run before
    let c := (Context.start "sample" SampleBuild.model {} {}).run before
    let cause : Refusal := .structural (.labelDeclaredTwice "table" .root)
    c.data.isOpen = true ∧ (d.perform again).1 = .error cause ∧
      (d.perform again).2 = d ∧ c.perform again = (.error cause, c) := by
  intro before again d c cause
  have hcause : (d.perform again).1 = .error cause := by
    rfl
  exact ⟨rfl, hcause, unchanged_of_refused (by simp [again]) hcause⟩

end Draft
end Stimulus
