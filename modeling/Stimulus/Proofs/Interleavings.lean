import Stimulus.Proofs.DataCommutes
import Stimulus.Proofs.Sealing
import Stimulus.Proofs.Visits

/-!
# Interleavings

## Order of commands

All interleavings of the same data operations and the same other commands answer the
same and lead to the same context, up to the order of the labels.

## Sealing

Sealing reads the labels through resolution only, so that the interleavings seal
alike, or are refused for one cause.
-/

namespace Stimulus

open Checked

/-!
# Sealing with labels in another order
-/

section

variable {streams : Streams} {labels labels' : Labels}

theorem StreamAccess.expand_congr
    (h : ∀ name, labels.dataAddress name = labels'.dataAddress name) (a : StreamAccess) :
    a.expand streams labels = a.expand streams labels' := by
  unfold StreamAccess.expand
  simp only [h]

mutual

theorem Node.expand_congr (h : ∀ name, labels.dataAddress name = labels'.dataAddress name) :
    ∀ n : Node StreamAccess, n.expand streams labels = n.expand streams labels'
  | .call c => by rw [Node.expand, Node.expand]
  | .block head children => by
      rw [Node.expand, Node.expand, Node.expandAll_congr h children]
  | .label name => by rw [Node.expand, Node.expand]
  | .output o => by rw [Node.expand, Node.expand]
  | .directive d => by rw [Node.expand, Node.expand]
  | .access a => by rw [Node.expand, Node.expand, a.expand_congr h]

theorem Node.expandAll_congr (h : ∀ name, labels.dataAddress name = labels'.dataAddress name) :
    ∀ nodes : List (Node StreamAccess),
      Node.expandAll streams labels nodes = Node.expandAll streams labels' nodes
  | [] => by rw [Node.expandAll, Node.expandAll]
  | n :: rest => by
      rw [Node.expandAll, Node.expandAll, Node.expand_congr h n, Node.expandAll_congr h rest]

end

theorem Block.expand_congr (h : ∀ name, labels.dataAddress name = labels'.dataAddress name)
    (b : Block StreamAccess) : b.expand streams labels = b.expand streams labels' := by
  unfold Block.expand
  rw [Node.expandAll_congr h]

end

section

variable {sources sources' : Sources}

/-- Sources that differ in labels that resolve the same. -/
structure Sources.Agrees (sources sources' : Sources) : Prop where
  options : sources.options = sources'.options
  requests : sources.requests = sources'.requests
  resolve : ∀ name origin,
    sources.labels.resolve name origin = sources'.labels.resolve name origin

theorem Sources.Agrees.bind_eq (h : sources.Agrees sources') (st : BindingState)
    (v : VisitedCall) (owner : Primitive) (placeholder : Placeholder) :
    st.bind sources v owner placeholder = st.bind sources' v owner placeholder := by
  have hproducer : sources.producer v owner placeholder =
      sources'.producer v owner placeholder := by
    unfold Sources.producer
    rw [h.options]
  have hresolved : ∀ index, sources.resolved v index = sources'.resolved v index := by
    intro index
    unfold Sources.resolved
    rw [h.requests]
    simp only [h.resolve]
  cases placeholder with
  | unknown index =>
      simp only [BindingState.bind, hproducer]
  | lazy index =>
      simp only [BindingState.bind, hresolved]

theorem Sources.Agrees.bindSlots_eq (h : sources.Agrees sources') (v : VisitedCall)
    (slots : List Slot) (st : BindingState) :
    st.bindSlots sources v slots = st.bindSlots sources' v slots := by
  induction slots generalizing st with
  | nil => rfl
  | cons slot rest ih =>
      rcases slot with ⟨argument, owner⟩
      cases argument with
      | placeholder placeholder =>
          simp only [BindingState.bindSlots, h.bind_eq, ih]
      | _ =>
          simp only [BindingState.bindSlots, ih]

theorem Sources.Agrees.bindSites_eq (h : sources.Agrees sources') (sites : List CallSite)
    (st : BindingState) : st.bindSites sources sites = st.bindSites sources' sites := by
  induction sites generalizing st with
  | nil => rfl
  | cons site rest ih =>
      simp only [BindingState.bindSites, BindingState.bindCall, h.bindSlots_eq, ih]

theorem Sources.Agrees.resolve_eq (h : sources.Agrees sources') (blocks : List (Block Empty)) :
    sources.resolve blocks = sources'.resolve blocks := by
  rw [Sources.resolve_eq_bindSites, Sources.resolve_eq_bindSites, h.bindSites_eq]

end

namespace Context

/-- The contexts are equal up to the order of the labels, which resolve the same. -/
structure Agrees (c c' : Context) : Prop where
  same : c' = { c with labels := c'.labels }
  entries : c.labels.entries.Perm c'.labels.entries
  resolve : ∀ name origin, c.labels.resolve name origin = c'.labels.resolve name origin
  dataAddress : ∀ name, c.labels.dataAddress name = c'.labels.dataAddress name

theorem seal_of_resolve {c : Context} {labels : Labels}
    (hresolve : ∀ name origin, c.labels.resolve name origin = labels.resolve name origin) :
    { c with labels }.seal = c.seal.map fun t => { t with labels } := by
  have hexpand : (c.roots.mapExcept fun root => root.block.expand c.streams c.labels) =
      c.roots.mapExcept fun root => root.block.expand c.streams labels := by
    simp only [Block.expand_congr (Labels.dataAddress_congr hresolve)]
  have hsources : Sources.Agrees ⟨c.options, c.labels, c.requests⟩
      ⟨c.options, labels, c.requests⟩ := ⟨rfl, rfl, hresolve⟩
  have hclosed : { c with labels }.checkClosed = c.checkClosed := rfl
  unfold Context.seal
  rw [hclosed, hexpand]
  simp only [hsources.resolve_eq]
  cases c.checkClosed with
  | error cause =>
      rfl
  | ok _ =>
      cases c.data.freeze with
      | error cause =>
          rfl
      | ok layout =>
          simp only [bind, Except.bind]
          cases c.roots.mapExcept fun root => root.block.expand c.streams labels with
          | error cause =>
              rfl
          | ok phases =>
              dsimp only
              cases Sources.resolve ⟨c.options, labels, c.requests⟩ phases.toList with
              | error fault =>
                  rfl
              | ok bindings =>
                  rfl

/-!
# The same builds in two contexts
-/

namespace Joins

variable {c c' other other' data data' : Context}

theorem data_eq (h : Joins c other data) : c.data = data.data := by
  rw [h.same]
  rfl

theorem replaceOther (h : Joins c other data) (hother : Joins other' other data') :
    Joins c other' data where
  same := by
    rw [hother.same]
    exact h.same
  code := h.code.trans hother.code.symm
  addressed := h.addressed
  sound := h.sound
  otherSound := hother.sound
  dataSound := h.dataSound

theorem replaceData (h : Joins c other data) (hdata : Joins data' other' data) :
    Joins c other data' where
  same := by
    rw [hdata.data_eq]
    exact h.same
  code := h.code
  addressed := h.addressed.trans hdata.addressed.symm
  sound := h.sound
  otherSound := h.otherSound
  dataSound := hdata.sound

theorem alike (h : Joins c other data) (h' : Joins c' other data) : Joins c' c c :=
  (h'.replaceOther h).replaceData h

theorem parts_of_advanceTo {next : Context} {phase : Phase} {outcome : Except Refusal Reply}
    (h : Step c (.advanceTo phase) outcome next) :
    next.labels = c.labels ∧ next.data = c.data := by
  cases h with
  | placed hleaf => cases hleaf
  | streamAccessed hcommand _ => cases hcommand
  | _ => exact ⟨rfl, rfl⟩

theorem advanceTo_alike (h : Joins c' c c) (phase : Phase) :
    (c'.perform (.advanceTo phase)).1 = (c.perform (.advanceTo phase)).1 ∧
      Joins (c'.perform (.advanceTo phase)).2 (c.perform (.advanceTo phase)).2
        (c.perform (.advanceTo phase)).2 := by
  have hc : c'.perform (.advanceTo phase) = ((c.perform (.advanceTo phase)).1,
      (c.perform (.advanceTo phase)).2.withParts c'.labels c.data) := by
    conv_lhs => rw [h.same]
    rw [perform, advanceTo_withParts rfl, commitDone_withParts]
    rfl
  rcases parts_of_advanceTo (c.perform_step (.advanceTo phase)) with ⟨hlabels, hdata⟩
  have hsound := h.sound.perform (.advanceTo phase)
  have hotherSound := h.otherSound.perform (.advanceTo phase)
  rw [hc] at hsound ⊢
  refine ⟨rfl, ?_, ?_, ?_, hsound, hotherSound, hotherSound⟩
  · rw [hdata]
    rfl
  · rw [hlabels]
    exact h.code
  · rw [hlabels]
    exact h.addressed

theorem perform_alike (h : Joins c' c c) (command : Command) :
    (c'.perform command).1 = (c.perform command).1 ∧
      Joins (c'.perform command).2 (c.perform command).2 (c.perform command).2 := by
  cases hdata : command.isData with
  | true =>
      cases command with
      | data operation =>
          rcases h.perform_data operation with ⟨houtcome, hnext⟩
          have hself := ((Joins.refl h.otherSound).perform_data operation).right
          exact ⟨houtcome, hnext.replaceOther hself⟩
      | _ => cases hdata
  | false =>
      cases hphase : command.inPhase with
      | true =>
          rcases h.perform_tree hdata hphase with ⟨houtcome, hnext⟩
          have hself := ((Joins.refl h.otherSound).perform_tree hdata hphase).right
          exact ⟨houtcome, hnext.replaceData hself⟩
      | false =>
          cases command with
          | advanceTo phase => exact h.advanceTo_alike phase
          | _ => cases hphase

theorem run_alike (h : Joins c' c c) (commands : List Command) :
    c'.outcomes commands = c.outcomes commands ∧
      Joins (c'.run commands) (c.run commands) (c.run commands) := by
  induction commands generalizing c c' with
  | nil =>
      exact ⟨rfl, h⟩
  | cons command rest ih =>
      rcases h.perform_alike command with ⟨houtcome, hnext⟩
      rcases ih hnext with ⟨houtcomes, hrun⟩
      simp only [outcomes, run_cons, houtcome, houtcomes]
      exact ⟨trivial, hrun⟩

theorem agrees (h : Joins c' c c) : Agrees c c' := by
  have hperm : c.labels.entries.Perm c'.labels.entries := by
    have hleft := c.labels.addressed_append_code
    have hright := c'.labels.addressed_append_code
    rw [h.addressed, h.code] at hright
    exact hleft.symm.trans hright
  have hresolve := Labels.resolve_perm h.otherSound.labels.unique hperm
  exact ⟨h.same, hperm, hresolve, Labels.dataAddress_congr hresolve⟩

end Joins

/-!
# Runs within a phase
-/

variable {c : Context}

/-- A data operation and another command answer the same in both orders, and lead to
contexts that agree. -/
structure Commute (c : Context) (operation : Data.Operation) (command : Command) : Prop where
  dataOutcome : ((c.perform command).2.perform (.data operation)).1 =
    (c.perform (.data operation)).1
  otherOutcome : ((c.perform (.data operation)).2.perform command).1 = (c.perform command).1
  agrees : Agrees (c.run [.data operation, command]) (c.run [command, .data operation])

/-- Two sequences of commands answer the same, data operations as well as others, and
cannot be told apart afterwards, but for the order of the labels. -/
structure Alike (c : Context) (commands commands' : List Command) : Prop where
  dataAnswers : c.answersTo (fun command => command.isData) commands =
    c.answersTo (fun command => command.isData) commands'
  otherAnswers : c.answersTo (fun command => !command.isData) commands =
    c.answersTo (fun command => !command.isData) commands'
  agrees : Agrees (c.run commands) (c.run commands')
  outcomes : ∀ later, (c.run commands').outcomes later = (c.run commands).outcomes later
  sealed : ∀ later, (c.run (commands' ++ later)).seal =
    (c.run (commands ++ later)).seal.map fun t =>
      { t with labels := (c.run (commands' ++ later)).labels }

theorem Sound.alike (h : Sound c) {commands commands' : List Command}
    (hphase : ∀ command ∈ commands, command.inPhase = true)
    (hphase' : ∀ command ∈ commands', command.inPhase = true)
    (hdata : (commands.filter fun command => command.isData) =
      commands'.filter fun command => command.isData)
    (hother : (commands.filter fun command => !command.isData) =
      commands'.filter fun command => !command.isData) : Alike c commands commands' := by
  rcases (Joins.refl h).run hphase with ⟨hdataAnswers, hotherAnswers, hrun⟩
  rcases (Joins.refl h).run hphase' with ⟨hdataAnswers', hotherAnswers', hrun'⟩
  rw [← hdata] at hdataAnswers' hrun'
  rw [← hother] at hotherAnswers' hrun'
  have halike := hrun.alike hrun'
  refine ⟨hdataAnswers.trans hdataAnswers'.symm, hotherAnswers.trans hotherAnswers'.symm,
    halike.agrees, fun later => (halike.run_alike later).left, ?_⟩
  intro later
  have hagrees := (halike.run_alike later).right.agrees
  rw [← run_append, ← run_append] at hagrees
  have hsealed := seal_of_resolve hagrees.resolve
  rw [← hagrees.same] at hsealed
  exact hsealed

theorem Sound.commute (h : Sound c) (operation : Data.Operation) {command : Command}
    (htree : command.isData = false) (hphase : command.inPhase = true) :
    Commute c operation command := by
  have hboth : ∀ other ∈ [Command.data operation, command], other.inPhase = true := by
    simp [hphase]
  have hboth' : ∀ other ∈ [command, Command.data operation], other.inPhase = true := by
    simp [hphase]
  have halike : Alike c [.data operation, command] [command, .data operation] :=
    h.alike hboth hboth' (by simp [List.filter_cons, htree]) (by simp [htree])
  have hdata := halike.dataAnswers
  have hother := halike.otherAnswers
  simp only [answersTo, htree, Command.isData_data, Bool.not_true, Bool.not_false,
    Bool.false_eq_true, if_true, if_false, List.cons.injEq, and_true] at hdata hother
  exact ⟨hdata.symm, hother, halike.agrees⟩

/-- At every point of a build, a data operation and any other command of a phase commute,
and so all their interleavings build the same template. -/
structure DataCommutes (c : Context) : Prop where
  commute : ∀ operation command, command.isData = false → command.inPhase = true →
    Commute c operation command
  interleave : ∀ commands commands' : List Command,
    (∀ command ∈ commands, command.inPhase = true) →
    (∀ command ∈ commands', command.inPhase = true) →
    ((commands.filter fun command => command.isData) =
      commands'.filter fun command => command.isData) →
    ((commands.filter fun command => !command.isData) =
      commands'.filter fun command => !command.isData) →
    Alike c commands commands'

theorem run_dataCommutes (name : String) (model : Model) (options : Options)
    (comments : CommentTokens) (commands : List Command) :
    DataCommutes ((start name model options comments).run commands) := by
  have hsound : Sound (start name model options comments) :=
    ⟨Rooted.start name model options comments, ⟨by simp [start], by simp [start]⟩⟩
  constructor
  · intro operation command htree hphase
    exact (hsound.run commands).commute operation htree hphase
  · intro left right hphase hphase' hdata hother
    exact (hsound.run commands).alike hphase hphase' hdata hother

/-- The order of the labels does depend on that of the commands: here a data label and
a code label have one name. -/
example :
    let c := SampleBuild.start.run (SampleBuild.commands.take 2)
    let dataFirst := c.run [.data (.label "table"), .label "table"]
    let dataLast := c.run [.label "table", .data (.label "table")]
    dataFirst.labels.entries.map (fun e => e.place) = [.data 0, .code ⟨[0]⟩ 0] ∧
      dataLast.labels.entries.map (fun e => e.place) = [.code ⟨[0]⟩ 0, .data 0] := by
  decide

end Context
end Stimulus
