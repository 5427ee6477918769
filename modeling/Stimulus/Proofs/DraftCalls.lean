import Stimulus.Build.Draft
import Stimulus.Proofs.IndexedLabels
import Stimulus.Proofs.LabelScopes
import Stimulus.Proofs.TreeSteps

/-!
# Commands in place

## The draft of a context

Of the roots in a context, a draft has only that of the current phase, and the blocks of
the phases before it.

## Settled commands

Every command but the end of a block is settled: it makes its changes when no check
can fail any more, or checks again only what cannot have changed.

## What is needed

The phases ahead are empty, so that leaving several of them changes no root, and the
index of the labels leads to the entries of each name.
-/

namespace Stimulus

open Checked InPlace

theorem Phase.index_next {p : Phase} (h : p ≠ .post) :
    p.next.index = p.index + 1 := by
  cases p with
  | pre =>
      rfl
  | run =>
      rfl
  | post =>
      exact absurd rfl h

def Phase.before : Phase → List Phase
  | .pre => []
  | .run => [.pre]
  | .post => [.pre, .run]

theorem Phase.before_next {p : Phase} (h : p ≠ .post) : p.next.before = p.before ++ [p] := by
  cases p with
  | pre =>
      rfl
  | run =>
      rfl
  | post =>
      exact absurd rfl h

theorem Phase.ne_of_mem_before {p q : Phase} (h : q ∈ p.before) : q ≠ p := by
  rintro rfl
  cases q <;> simp [before] at h

theorem Data.Writer.addressHere_eq_ok {w : Data.Writer} {address : UInt64} :
    w.addressHere = .ok address ↔ (∃ opened, w.opened = some opened) ∧ address = w.cursor := by
  unfold addressHere
  simp only [bind_eq_ok, pure_eq_ok, WriterCall.currentSection_eq_ok, exists_and_right]

theorem Context.performData_eq {c : Context} {operation : Data.Operation}
    (hlabel : ∀ name, operation ≠ .label name) :
    c.performData operation =
      (c.data.perform operation).map fun t => (t.1, { c with data := t.2 }) := by
  unfold performData
  cases operation with
  | label name =>
      exact absurd rfl (hlabel name)
  | _ =>
      cases c.data.perform _ with
      | error cause =>
          rfl
      | ok t =>
          rfl

def Context.finished (c : Context) : List (Block StreamAccess) :=
  c.phase.before.map fun p => (c.roots.get p).block

/-- The draft that has come as far as the context. -/
def Context.draft (c : Context) (slots : OrderedMap String (List Nat)) : Draft where
  name := c.name
  model := c.model
  options := c.options
  comments := c.comments
  phase := c.phase
  finished := c.finished
  root := c.roots.get c.phase
  scopes := c.scopes
  unknowns := c.unknowns
  requests := c.requests
  labels := ⟨c.labels, slots⟩
  streamPreparators := c.streamPreparators
  registerPreparators := c.registerPreparators
  streams := c.streams
  data := c.data

namespace Draft

variable {c : Context} {slots : OrderedMap String (List Nat)}

def settleContext {α : Type} (c : Context) (slots : OrderedMap String (List Nat))
    (result : Except Refusal (α × Context)) : Except Refusal α × Draft :=
  settle (c.draft slots) (fun t => (t.1, t.2.draft slots)) result

def settleDone (c : Context) (slots : OrderedMap String (List Nat))
    (result : Except Refusal Context) : Except Refusal Unit × Draft :=
  settle (c.draft slots) (fun next => ((), next.draft slots)) result

@[simp]
theorem scopes_draft : (c.draft slots).scopes = c.scopes :=
  rfl

@[simp]
theorem model_draft : (c.draft slots).model = c.model :=
  rfl

theorem top_draft : (c.draft slots).top = c.top := by
  unfold top Context.top
  change c.scopes.head?.getD _ = _
  cases c.scopes with
  | nil =>
      rfl
  | cons s rest =>
      rfl

theorem draft_modify_root (f : Scope → Scope) :
    { c with roots := c.roots.modify c.phase f }.draft slots =
      { c.draft slots with root := f (c.roots.get c.phase) } := by
  have hfinished : { c with roots := c.roots.modify c.phase f }.finished = c.finished := by
    apply List.map_congr_left
    intro p hp
    change ((c.roots.modify c.phase f).get p).block = _
    rw [PhaseTable.get_modify, if_neg (Ne.symm (Phase.ne_of_mem_before hp))]
  have hroot : (c.roots.modify c.phase f).get c.phase = f (c.roots.get c.phase) := by
    rw [PhaseTable.get_modify, if_pos rfl]
  unfold Context.draft
  rw [hfinished]
  simp only [hroot]

theorem withTop_nil {d : Draft} {f : Scope → Scope} (h : d.scopes = []) :
    d.withTop f = { d with root := f d.root } := by
  unfold withTop
  rw [h]

theorem withTop_cons {d : Draft} {f : Scope → Scope} {s : Scope} {rest : List Scope}
    (h : d.scopes = s :: rest) : d.withTop f = { d with scopes := f s :: rest } := by
  unfold withTop
  rw [h]

theorem withTop_draft (f : Scope → Scope) :
    (c.draft slots).withTop f = (c.modifyTop f).draft slots := by
  cases hscopes : c.scopes with
  | nil =>
      rw [Context.modifyTop_nil hscopes, draft_modify_root, withTop_nil hscopes]
      rfl
  | cons s rest =>
      rw [Context.modifyTop_cons hscopes, withTop_cons hscopes]
      rfl

theorem call_modifyTop (f : Scope → Scope) :
    (modifyTop f).call (c.draft slots) = (.ok (), (c.modifyTop f).draft slots) :=
  congrArg (Prod.mk _) (withTop_draft f)

theorem call_modifyTop_bind {α : Type} (f : Scope → Scope) (g : Unit → InPlace Draft α) :
    (modifyTop f >>= g).call (c.draft slots) = (g ()).call ((c.modifyTop f).draft slots) := by
  rw [call_bind, call_modifyTop]

theorem call_push (node : Node StreamAccess) :
    (push node).call (c.draft slots) = (.ok (), (c.push node).draft slots) :=
  call_modifyTop _

/-!
# Phases
-/

def EmptyAhead (c : Context) : Prop :=
  ∀ p, c.phase.index < p.index → c.roots.get p = Scope.phaseRoot p

theorem draft_next (hahead : EmptyAhead c) (hlast : c.phase ≠ .post) :
    { c with phase := c.phase.next }.draft slots =
      { c.draft slots with
        phase := c.phase.next
        finished := c.finished ++ [(c.roots.get c.phase).block]
        root := .phaseRoot c.phase.next } := by
  have hroot : c.roots.get c.phase.next = Scope.phaseRoot c.phase.next := by
    apply hahead
    rw [Phase.index_next hlast]
    exact Nat.lt_succ_self _
  unfold Context.draft Context.finished
  rw [hroot, Phase.before_next hlast, List.map_append]
  rfl

theorem call_leavePhase (hahead : EmptyAhead c) (hlast : c.phase ≠ .post) :
    leavePhase.call (c.draft slots) = settleDone c slots (do
      c.checkClosed
      return { c with phase := c.phase.next }) := by
  unfold leavePhase closePhase
  simp only [bind_assoc]
  refine settle_ask fun _ _ => ?_
  change _ = (Except.ok (), { c with phase := c.phase.next }.draft slots)
  rw [draft_next hahead hlast]
  rfl

theorem call_leavePhases (hahead : EmptyAhead c) {phase : Phase} {count : Nat}
    (hcount : c.phase.index + (count + 1) = phase.index) :
    (leavePhases (count + 1)).call (c.draft slots) = settleDone c slots (do
      c.checkClosed
      return { c with phase }) := by
  induction count generalizing c with
  | zero =>
      have hlast : c.phase ≠ .post := Phase.ne_post_of_lt (q := phase) (by omega)
      have hphase : c.phase.next = phase := by
        rw [← Phase.index_inj, Phase.index_next hlast]
        exact hcount
      rw [leavePhases, call_bind, call_leavePhase hahead hlast, hphase]
      cases c.checkClosed with
      | error cause =>
          rfl
      | ok _ =>
          rfl
  | succ count ih =>
      have hlast : c.phase ≠ .post := Phase.ne_post_of_lt (q := phase) (by omega)
      have hnext := Phase.index_next hlast
      let left : Context := { c with phase := c.phase.next }
      have hlater : EmptyAhead left := by
        intro p hp
        apply hahead
        change c.phase.next.index < p.index at hp
        omega
      have hrest := ih (c := left) hlater (by
        change c.phase.next.index + (count + 1) = phase.index
        omega)
      have hsame : left.checkClosed = c.checkClosed := rfl
      rw [leavePhases, call_bind, call_leavePhase hahead hlast]
      rw [hsame] at hrest
      cases hclosed : c.checkClosed with
      | error cause =>
          rfl
      | ok _ =>
          rw [hclosed] at hrest
          exact hrest

theorem call_advanceTo (hahead : EmptyAhead c) (phase : Phase) :
    (advanceTo phase).call (c.draft slots) = settleDone c slots (c.advanceTo phase) := by
  unfold advanceTo Context.advanceTo
  rw [call_get_bind]
  refine settle_refuseIf fun hnotPast => ?_
  change (leavePhases (phase.index - c.phase.index)).call _ = _
  by_cases hsame : phase = c.phase
  · rw [if_pos hsame, hsame, Nat.sub_self]
    rfl
  · rw [if_neg hsame]
    have hne : phase.index ≠ c.phase.index := by
      rwa [Ne, Phase.index_inj]
    have hnotPast : ¬ phase.index < c.phase.index := hnotPast
    have hcount : phase.index - c.phase.index = phase.index - c.phase.index - 1 + 1 := by
      omega
    rw [hcount]
    exact call_leavePhases hahead (by omega)

theorem call_finishLast (hphase : c.phase = .post) :
    (finishLast.call (c.draft slots)).1 = (do
      c.checkClosed
      return c.roots.toList.map Scope.block) := by
  have hfinished : c.finished ++ [(c.roots.get c.phase).block] =
      c.roots.toList.map Scope.block := by
    rw [Context.finished, hphase]
    rfl
  have hclosed : (c.draft slots).checkClosed = c.checkClosed := rfl
  rw [← hfinished]
  unfold finishLast closePhase ask
  simp only [bind_assoc]
  rw [call_get_bind, hclosed]
  cases c.checkClosed with
  | error cause =>
      rfl
  | ok _ =>
      rfl

/-- Once the last phase is closed too, the finished blocks are those of all roots. -/
theorem call_finishAll (hahead : EmptyAhead c) :
    (finishAll.call (c.draft slots)).1 = (do
      c.checkClosed
      return c.roots.toList.map Scope.block) := by
  rw [finishAll, call_bind, call_advanceTo hahead]
  unfold Context.advanceTo
  rw [if_neg (by cases c.phase <;> simp [Phase.index])]
  by_cases hphase : .post = c.phase
  · rw [if_pos hphase]
    exact call_finishLast hphase.symm
  · rw [if_neg hphase]
    cases hclosed : c.checkClosed with
    | error cause =>
        rfl
    | ok _ =>
        let last : Context := { c with phase := .post }
        have hlast : (finishLast.call (last.draft slots)).1 = (do
            c.checkClosed
            return c.roots.toList.map Scope.block) := call_finishLast rfl
        rw [hclosed] at hlast
        exact hlast

/-!
# Blocks
-/

theorem call_openBlock (kind : ScopeKind) (requested : BlockAttributes) :
    (openBlock kind requested).call (c.draft slots) =
      settleContext c slots (.ok (c.openBlock kind requested)) := by
  unfold openBlock
  rw [call_get_bind, top_draft, call_modifyTop_bind]
  rfl

theorem call_closeBlock :
    closeBlock.call (c.draft slots) = (c.closeBlock.1, c.closeBlock.2.draft slots) := by
  unfold closeBlock Context.closeBlock
  rw [call_get_bind, scopes_draft]
  cases hscopes : c.scopes with
  | nil =>
      rfl
  | cons s rest =>
      by_cases hconstraining : s.constraining = true
      · simp only [hconstraining, refuseIf, if_true]
        rfl
      · simp only [hconstraining, refuseIf, Bool.false_eq_true, if_false]
        cases s.block.checkCover with
        | error cause =>
            rfl
        | ok _ =>
            exact call_push (c := { c with scopes := rest }) _

theorem call_coverBlock (situation : Situation) :
    (coverBlock situation).call (c.draft slots) = settleDone c slots (c.coverBlock situation) := by
  unfold coverBlock Context.coverBlock
  rw [call_get_bind, scopes_draft]
  cases c.scopes with
  | nil =>
      rfl
  | cons s rest =>
      refine settle_refuseIf fun _ => ?_
      rfl

/-!
# Calls
-/

theorem call_instruction (name : String) (args : List Argument) :
    (instruction name args).call (c.draft slots) = settleContext c slots (c.instruction name args) := by
  unfold instruction Context.instruction
  refine settle_ask fun primitive _ => ?_
  exact call_modifyTop_bind _ _

theorem call_attach (situation : Situation) :
    (attach situation).call (c.draft slots) = settleContext c slots (c.attach situation) := by
  unfold attach Context.attach Scope.attachLast
  rw [call_get_bind, top_draft]
  cases c.top.children.getLast? with
  | none =>
      rfl
  | some node =>
      cases node with
      | call last =>
          simp only
          cases last.attach situation with
          | error cause =>
              rfl
          | ok attached =>
              let append (s : Scope) : Scope :=
                { s with children := s.children.dropLast ++ [.call attached] }
              change (modifyTop append >>= fun _ => pure (some attached)).call (c.draft slots) = _
              rw [call_modifyTop_bind, Context.modifyTop_const]
              rfl
      | _ =>
          rfl

theorem call_lazy (label : String) :
    (lazy label).call (c.draft slots) = settleContext c slots (.ok (c.lazy label)) := by
  unfold lazy
  rw [call_get_bind, top_draft]
  rfl

theorem call_align (alignment : UInt64) :
    (align alignment).call (c.draft slots) = settleDone c slots (c.align alignment) := by
  unfold align Context.align
  refine settle_refuseIf fun _ => ?_
  exact call_push _

/-!
# Allocation constraints
-/

theorem call_openConstraint :
    openConstraint.call (c.draft slots) = settleDone c slots c.openConstraint := by
  unfold openConstraint Context.openConstraint
  rw [call_get_bind, scopes_draft]
  cases c.scopes with
  | nil =>
      rfl
  | cons s rest =>
      refine settle_refuseUnless fun _ => ?_
      rfl

theorem call_closeConstraint :
    closeConstraint.call (c.draft slots) = settleDone c slots c.closeConstraint := by
  unfold closeConstraint Context.closeConstraint
  rw [call_get_bind, scopes_draft]
  cases c.scopes with
  | nil =>
      rfl
  | cons s rest =>
      refine settle_refuseUnless fun _ => ?_
      rfl

theorem call_constrain (resourceClass : String) (clauses : List AllocationClause) :
    (constrain resourceClass clauses).call (c.draft slots) =
      settleDone c slots (c.constrain resourceClass clauses) := by
  unfold constrain Context.constrain
  rw [call_get_bind, call_get_bind, scopes_draft, model_draft]
  cases c.scopes with
  | nil =>
      rfl
  | cons s rest =>
      refine settle_refuseUnless fun _ => ?_
      refine settle_check fun a _ => ?_
      unfold Scope.constrain
      by_cases hmode : (c.model.find? .mode a.resourceClass).isNone = true
      · simp only [hmode, refuseIf, if_true]
        rfl
      · by_cases hcovered :
            (s.head.allocations.any fun other => other.covers a.resourceClass) = true
        · simp only [hmode, hcovered, refuseIf, if_true, Bool.false_eq_true, if_false]
          rfl
        · simp only [hmode, hcovered, refuseIf, Bool.false_eq_true, if_false]
          rfl

/-!
# Preparators and streams
-/

theorem call_addStreamPreparator (p : StreamPreparator) :
    (addStreamPreparator p).call (c.draft slots) = settleDone c slots (c.addStreamPreparator p) := by
  unfold addStreamPreparator Context.addStreamPreparator
  refine settle_ask fun _ _ => ?_
  rfl

theorem call_addRegisterPreparator (p : RegisterPreparator) :
    (addRegisterPreparator p).call (c.draft slots) = settleDone c slots (c.addRegisterPreparator p) := by
  unfold addRegisterPreparator Context.addRegisterPreparator
  refine settle_ask fun _ _ => ?_
  rfl

theorem call_access (stream : StreamId) (part : StreamPart) :
    (access stream part).call (c.draft slots) = (.ok (), (c.access stream part).draft slots) := by
  unfold access Context.access
  rw [call_get_bind, top_draft, call_modifyTop_bind, call_push]
  change (_, ((c.modifyTop Scope.reserve).modifyTop _).draft slots) = _
  rw [Context.modifyTop_modifyTop, Context.modifyTop_const,
    Context.modifyTop_const _ fun s => s.reserve.push _]

theorem call_bindStream (label : String) (data index : Primitive) (length : Nat) :
    (bindStream label data index length).call (c.draft slots) =
      settleContext c slots (c.bindStream label data index length) := by
  unfold bindStream Context.bindStream Streams.bind
  rw [call_get_bind]
  refine settle_refuseIf_bind fun _ => ?_
  refine settle_refuseIf_bind fun _ => ?_
  refine settle_refuseIf_bind fun _ => ?_
  refine settle_refuseIf_bind fun _ => ?_
  have hpreparators : (c.draft slots).streamPreparators = c.streamPreparators := rfl
  rw [hpreparators]
  cases c.streamPreparators.find (StreamKey.ofNames data.name index.name) with
  | error cause =>
      rfl
  | ok preparator =>
      let stream : BoundStream :=
        ⟨⟨c.streams.bound.length⟩, label, data, index, length, preparator⟩
      let bound : Context := { c with streams := ⟨c.streams.bound ++ [stream]⟩ }
      change (access stream.id .init >>= fun _ => pure stream.id).call (bound.draft slots) = _
      rw [call_bind, call_access]
      rfl

theorem call_accessStream (label : String) (part : StreamPart) :
    (accessStream label part).call (c.draft slots) = settleDone c slots (c.accessStream label part) := by
  unfold accessStream Context.accessStream
  refine settle_ask fun stream _ => ?_
  exact call_access stream.id part

theorem call_setOption (name : String) (value : Setting) :
    (setOption name value).call (c.draft slots) = settleDone c slots (c.setOption name value) := by
  unfold setOption Context.setOption Options.setNamed
  cases Options.lookup name with
  | error cause =>
      rfl
  | ok option =>
      change (ask (fun d : Draft => (d.options.set option value).mapError .option) >>= _).call _ = _
      refine settle_ask fun _ _ => ?_
      rfl

/-!
# Labels
-/

def slotsWith (c : Context) (slots : OrderedMap String (List Nat)) (entry : LabelDeclaration) :
    OrderedMap String (List Nat) :=
  (IndexedLabels.declared ⟨c.labels, slots⟩ entry).slots

theorem call_declare (hindex : IndexedLabels.Indexes ⟨c.labels, slots⟩) (entry : LabelDeclaration) :
    (onLabels (IndexedLabels.declare entry)).call (c.draft slots) =
      settle (c.draft slots) (fun labels => ((), { c with labels }.draft (slotsWith c slots entry)))
        ((c.labels.declare entry).mapError .structural) := by
  have hcall : (onLabels (IndexedLabels.declare entry)).call (c.draft slots) =
      (((IndexedLabels.declare entry).call ⟨c.labels, slots⟩).1,
        { c.draft slots with labels := ((IndexedLabels.declare entry).call ⟨c.labels, slots⟩).2 }) :=
    rfl
  rw [hcall, IndexedLabels.call_declare hindex]
  cases hdeclare : c.labels.declare entry with
  | error cause =>
      rfl
  | ok labels =>
      rw [(Labels.declare_eq_ok.mp hdeclare).right]
      rfl

theorem call_label (hindex : IndexedLabels.Indexes ⟨c.labels, slots⟩) (name : String) :
    (label name).call (c.draft slots) =
      settle (c.draft slots)
        (fun next => ((), next.draft (slotsWith c slots (c.top.declarationHere name))))
        (c.label name) := by
  unfold label Context.label
  rw [call_get_bind, top_draft, call_bind, call_declare hindex]
  change _ = settle _ _ ((c.labels.declare (c.top.declarationHere name)).mapError
    .structural >>= _)
  cases hdeclare : c.labels.declare (c.top.declarationHere name) with
  | error cause =>
      rfl
  | ok labels =>
      exact call_push _

theorem call_onData {α : Type} (m : InPlace Data.Writer α) :
    (onData m).call (c.draft slots) = ((m.call c.data).1,
      { c with data := (m.call c.data).2 }.draft slots) :=
  rfl

theorem call_dataLabel (hindex : IndexedLabels.Indexes ⟨c.labels, slots⟩) (name : String) :
    (performData (.label name)).call (c.draft slots) =
      settle (c.draft slots)
        (fun t => (t.1, t.2.draft (slotsWith c slots ⟨name, .root, .data c.data.cursor⟩)))
        (c.performData (.label name)) := by
  unfold performData dataLabel Context.performData
  simp only [bind_assoc]
  refine settle_ask fun address haddress => ?_
  rcases Data.Writer.addressHere_eq_ok.mp haddress with ⟨⟨opened, hopened⟩, rfl⟩
  have hopened : c.data.opened = some opened := hopened
  change (onLabels (IndexedLabels.declare ⟨name, .root, .data c.data.cursor⟩) >>= _).call _ = _
  rw [call_bind, call_declare hindex]
  change _ = settle _ _ ((c.labels.declare ⟨name, .root, .data c.data.cursor⟩).mapError
    .structural >>= _)
  cases hdeclare : c.labels.declare ⟨name, .root, .data c.data.cursor⟩ with
  | error cause =>
      rfl
  | ok labels =>
      have hplaced : c.data.label name = .ok (c.data.cursor,
          c.data.append opened (.label name c.data.cursor) c.data.cursor) := by
        unfold Data.Writer.label
        rw [Data.WriterCall.currentSection_eq_ok.mpr hopened]
        rfl
      have hcall := Data.WriterCall.call_label (w := c.data) name
      rw [hplaced, settle_ok] at hcall
      rw [Data.Writer.perform, hplaced]
      let after := slotsWith c slots ⟨name, .root, .data c.data.cursor⟩
      have hdata : (onData (Data.WriterCall.label name)).call ({ c with labels }.draft after) =
          (((Data.WriterCall.label name).call c.data).1,
            { c with labels, data := ((Data.WriterCall.label name).call c.data).2 }.draft after) :=
        rfl
      rw [hcall] at hdata
      change (onData (Data.WriterCall.label name) >>= fun a => pure (some a)).call
        ({ c with labels }.draft after) = _
      rw [call_bind, hdata]
      rfl

theorem call_performData {operation : Data.Operation} (hlabel : ∀ name, operation ≠ .label name) :
    (performData operation).call (c.draft slots) =
      settleContext c slots (c.performData operation) := by
  have hcall : performData operation = onData (Data.WriterCall.perform operation) := by
    cases operation with
    | label name =>
        exact absurd rfl (hlabel name)
    | _ =>
        rfl
  rw [hcall, Context.performData_eq hlabel, call_onData, Data.WriterCall.call_perform]
  cases c.data.perform operation with
  | error cause =>
      rfl
  | ok t =>
      rfl

/-!
# Commands
-/

theorem call_done {m : InPlace Draft Unit} {result : Except Refusal Context}
    (h : m.call (c.draft slots) = settleDone c slots result) :
    (done m).call (c.draft slots) =
      ((c.commitDone result).1, (c.commitDone result).2.draft slots) := by
  rw [done, call_bind, h]
  cases result with
  | error cause =>
      rfl
  | ok next =>
      rfl

theorem call_reply {α : Type} {m : InPlace Draft α} {result : Except Refusal (α × Context)}
    (reply : α → Reply) (h : m.call (c.draft slots) = settleContext c slots result) :
    (m >>= fun a => pure (reply a)).call (c.draft slots) =
      ((c.commit reply result).1, (c.commit reply result).2.draft slots) := by
  rw [call_bind, h]
  cases result with
  | error cause =>
      rfl
  | ok t =>
      rfl

theorem call_checked {α : Type} {m : InPlace Draft α} {result : Except Refusal α}
    (reply : α → Reply) (h : m.call (c.draft slots) = (result, c.draft slots)) :
    (m >>= fun a => pure (reply a)).call (c.draft slots) =
      (result.map reply, c.draft slots) := by
  rw [call_bind, h]
  cases result with
  | error cause =>
      rfl
  | ok a =>
      rfl

theorem call_appended {m : InPlace Draft Unit} {node : Node StreamAccess}
    (h : m.call (c.draft slots) = (push node).call (c.draft slots)) :
    (done m).call (c.draft slots) = (.ok .done, (c.push node).draft slots) := by
  rw [done, call_bind, h, call_push]
  rfl

/-- Where no label is declared, a command in place comes to what `Context.perform` says. -/
theorem perform_eq (hahead : EmptyAhead c) {command : Command}
    (hlabel : ∀ name, command ≠ .label name) (hdata : ∀ name, command ≠ .data (.label name)) :
    (c.draft slots).perform command =
      ((c.perform command).1, (c.perform command).2.draft slots) := by
  cases command with
  | advanceTo phase => exact call_done (call_advanceTo hahead phase)
  | openBlock kind requested => exact call_reply _ (call_openBlock kind requested)
  | closeBlock =>
      have hcall : (c.draft slots).perform .closeBlock = (c.closeBlock.1.map fun _ => .done,
          c.closeBlock.2.draft slots) := by
        rw [perform, Draft.command, done, call_bind, call_closeBlock]
        cases c.closeBlock.1 with
        | error cause =>
            rfl
        | ok _ =>
            rfl
      exact hcall
  | coverBlock situation => exact call_done (call_coverBlock situation)
  | value kind name args => exact call_checked _ rfl
  | random min max => exact call_checked _ rfl
  | unknown => rfl
  | lazy label => exact call_reply _ (call_lazy label)
  | instruction name args => exact call_reply _ (call_instruction name args)
  | attach situation => exact call_reply _ (call_attach situation)
  | label name => exact absurd rfl (hlabel name)
  | output kind format args => exact call_appended rfl
  | newline => exact call_appended rfl
  | comment text => exact call_appended rfl
  | openComment => exact call_appended rfl
  | closeComment => exact call_appended rfl
  | origin address relative => exact call_appended rfl
  | align alignment => exact call_done (call_align alignment)
  | openConstraint => exact call_done call_openConstraint
  | closeConstraint => exact call_done call_closeConstraint
  | constrain resourceClass clauses => exact call_done (call_constrain resourceClass clauses)
  | addStreamPreparator p => exact call_done (call_addStreamPreparator p)
  | addRegisterPreparator p => exact call_done (call_addRegisterPreparator p)
  | bindStream label data index length =>
      exact call_reply _ (call_bindStream label data index length)
  | readStream label => exact call_done (call_accessStream label .read)
  | writeStream label => exact call_done (call_accessStream label .write)
  | data operation =>
      exact call_reply _ (call_performData fun name h => hdata name (h ▸ rfl))
  | setOption name value => exact call_done (call_setOption name value)

end Draft
end Stimulus
