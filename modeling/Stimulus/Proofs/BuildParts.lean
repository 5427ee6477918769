import Stimulus.Proofs.LabelOrder
import Stimulus.Proofs.TreeSteps

/-!
# Parts of a build

## Trees and data

A data operation reads and changes the data sections and the data labels; any other
command leaves them alone, and reads them only to enter another phase.
-/

namespace Stimulus

namespace Command

def isData : Command → Bool
  | .data _ => true
  | _ => false

def inPhase : Command → Bool
  | .advanceTo _ => false
  | _ => true

@[simp]
theorem isData_data (operation : Data.Operation) : (data operation).isData = true :=
  rfl

@[simp]
theorem inPhase_data (operation : Data.Operation) : (data operation).inPhase = true :=
  rfl

end Command

namespace Context

variable {c : Context} {labels : Labels} {data : Data.Writer}

def withParts (c : Context) (labels : Labels) (data : Data.Writer) : Context :=
  { c with labels, data }

theorem scopes_withParts : (c.withParts labels data).scopes = c.scopes :=
  rfl

theorem model_withParts : (c.withParts labels data).model = c.model :=
  rfl

theorem top_withParts : (c.withParts labels data).top = c.top :=
  rfl

theorem modifyTop_withParts (f : Scope → Scope) :
    (c.withParts labels data).modifyTop f = (c.modifyTop f).withParts labels data := by
  cases hscopes : c.scopes with
  | nil =>
      rw [modifyTop_nil hscopes, modifyTop_nil (c := c.withParts labels data) hscopes]
      rfl
  | cons s rest =>
      rw [modifyTop_cons hscopes, modifyTop_cons (c := c.withParts labels data) hscopes]
      rfl

theorem commit_withParts {α : Type} (reply : α → Reply) (result : Except Refusal (α × Context)) :
    (c.withParts labels data).commit reply
        (result.map fun t => (t.1, t.2.withParts labels data)) =
      ((c.commit reply result).1, (c.commit reply result).2.withParts labels data) := by
  cases result with
  | error cause =>
      rfl
  | ok t =>
      rfl

theorem commitDone_withParts (result : Except Refusal Context) :
    (c.withParts labels data).commitDone (result.map fun next => next.withParts labels data) =
      ((c.commitDone result).1, (c.commitDone result).2.withParts labels data) := by
  cases result with
  | error cause =>
      rfl
  | ok next =>
      rfl

/-!
# Calls

What each call comes to with other labels and other data.
-/

theorem push_withParts (node : Node StreamAccess) :
    (c.withParts labels data).push node = (c.push node).withParts labels data :=
  modifyTop_withParts _

theorem openBlock_withParts (kind : ScopeKind) (requested : BlockAttributes) :
    (c.withParts labels data).openBlock kind requested =
      ((c.openBlock kind requested).1, (c.openBlock kind requested).2.withParts labels data) := by
  unfold openBlock
  rw [modifyTop_withParts]
  rfl

theorem closeBlock_withParts :
    (c.withParts labels data).closeBlock =
      (c.closeBlock.1, c.closeBlock.2.withParts labels data) := by
  unfold closeBlock
  rw [scopes_withParts]
  cases c.scopes with
  | nil =>
      rfl
  | cons s rest =>
      by_cases hconstraining : s.constraining = true
      · simp only [hconstraining, if_true]
        rfl
      · simp only [hconstraining, Bool.false_eq_true, if_false]
        cases s.block.checkCover with
        | error cause =>
            rfl
        | ok _ =>
            exact Prod.ext rfl (push_withParts (c := { c with scopes := rest }) _)

theorem coverBlock_withParts (situation : Situation) :
    (c.withParts labels data).coverBlock situation =
      (c.coverBlock situation).map fun next => next.withParts labels data := by
  unfold coverBlock
  rw [scopes_withParts]
  cases c.scopes with
  | nil =>
      rfl
  | cons s rest =>
      by_cases hsituation : s.head.situation.isSome = true
      · simp only [hsituation, if_true]
        rfl
      · simp only [hsituation, Bool.false_eq_true, if_false]
        rfl

theorem instruction_withParts (name : String) (args : List Argument) :
    (c.withParts labels data).instruction name args =
      (c.instruction name args).map fun t => (t.1, t.2.withParts labels data) := by
  unfold instruction
  simp only [push_withParts]
  rw [model_withParts]
  cases c.model.primitive .instruction name args with
  | error cause =>
      rfl
  | ok p =>
      rfl

theorem attach_withParts (situation : Situation) :
    (c.withParts labels data).attach situation =
      (c.attach situation).map fun t => (t.1, t.2.withParts labels data) := by
  unfold attach
  simp only [modifyTop_withParts, top_withParts]
  cases c.top.attachLast situation with
  | error cause =>
      rfl
  | ok attached =>
      cases attached with
      | none =>
          rfl
      | some t =>
          rfl

theorem align_withParts (alignment : UInt64) :
    (c.withParts labels data).align alignment =
      (c.align alignment).map fun next => next.withParts labels data := by
  unfold align
  rw [push_withParts]
  by_cases hzero : alignment = 0
  · rw [if_pos hzero, if_pos hzero]
    rfl
  · rw [if_neg hzero, if_neg hzero]
    rfl

theorem openConstraint_withParts :
    (c.withParts labels data).openConstraint =
      c.openConstraint.map fun next => next.withParts labels data := by
  unfold openConstraint
  rw [scopes_withParts]
  cases c.scopes with
  | nil =>
      rfl
  | cons s rest =>
      by_cases hopen : (s.head.kind.isSequence && !s.constraining) = true
      · simp only [hopen, if_true]
        rfl
      · simp only [hopen]
        rfl

theorem closeConstraint_withParts :
    (c.withParts labels data).closeConstraint =
      c.closeConstraint.map fun next => next.withParts labels data := by
  unfold closeConstraint
  rw [scopes_withParts]
  cases c.scopes with
  | nil =>
      rfl
  | cons s rest =>
      by_cases hconstraining : s.constraining = true
      · simp only [hconstraining, if_true]
        rfl
      · simp only [hconstraining]
        rfl

theorem constrain_withParts (resourceClass : String) (clauses : List AllocationClause) :
    (c.withParts labels data).constrain resourceClass clauses =
      (c.constrain resourceClass clauses).map fun next => next.withParts labels data := by
  unfold constrain
  rw [scopes_withParts, model_withParts]
  cases c.scopes with
  | nil =>
      rfl
  | cons s rest =>
      by_cases hconstraining : s.constraining = true
      · simp only [hconstraining, if_true]
        cases Allocation.ofClauses resourceClass clauses with
        | error cause =>
            rfl
        | ok a =>
            cases hscope : s.constrain c.model a with
            | error cause =>
                simp only [bind, Except.bind, hscope]
                rfl
            | ok s' =>
                simp only [bind, Except.bind, hscope]
                rfl
      · simp only [hconstraining]
        rfl

theorem access_withParts (stream : StreamId) (part : StreamPart) :
    (c.withParts labels data).access stream part = (c.access stream part).withParts labels data :=
  modifyTop_withParts _

theorem addStreamPreparator_withParts (p : StreamPreparator) :
    (c.withParts labels data).addStreamPreparator p =
      (c.addStreamPreparator p).map fun next => next.withParts labels data := by
  unfold addStreamPreparator
  rw [model_withParts]
  cases p.canonical c.model with
  | error cause =>
      rfl
  | ok p' =>
      rfl

theorem addRegisterPreparator_withParts (p : RegisterPreparator) :
    (c.withParts labels data).addRegisterPreparator p =
      (c.addRegisterPreparator p).map fun next => next.withParts labels data := by
  unfold addRegisterPreparator
  rw [model_withParts]
  cases p.canonical c.model with
  | error cause =>
      rfl
  | ok p' =>
      rfl

theorem bindStream_withParts (label : String) (registers index : Primitive) (length : Nat) :
    (c.withParts labels data).bindStream label registers index length =
      (c.bindStream label registers index length).map fun t => (t.1, t.2.withParts labels data) := by
  unfold bindStream
  change (c.streams.bind c.streamPreparators label registers index length >>= _) = _
  cases c.streams.bind c.streamPreparators label registers index length with
  | error cause =>
      rfl
  | ok bound =>
      exact congrArg (fun next => Except.ok (bound.1.id, next))
        (access_withParts (c := { c with streams := bound.2 }) _ _)

theorem accessStream_withParts (label : String) (part : StreamPart) :
    (c.withParts labels data).accessStream label part =
      (c.accessStream label part).map fun next => next.withParts labels data := by
  unfold accessStream
  simp only [access_withParts]
  change ((c.streams.find label).mapError _ >>= _) = _
  cases c.streams.find label with
  | error cause =>
      rfl
  | ok stream =>
      rfl

theorem setOption_withParts (name : String) (value : Setting) :
    (c.withParts labels data).setOption name value =
      (c.setOption name value).map fun next => next.withParts labels data := by
  unfold setOption
  change ((c.options.setNamed name value).mapError _ >>= _) = _
  cases c.options.setNamed name value with
  | error cause =>
      rfl
  | ok options =>
      rfl

theorem advanceTo_withParts (hopen : data.isOpen = c.data.isOpen) (phase : Phase) :
    (c.withParts labels data).advanceTo phase =
      (c.advanceTo phase).map fun next => next.withParts labels data := by
  have hclosed : (c.withParts labels data).checkClosed = c.checkClosed := by
    unfold checkClosed
    change (if c.depth ≠ 0 then _ else if data.isOpen = true then _ else _) = _
    rw [hopen]
    rfl
  unfold advanceTo
  rw [hclosed]
  change (if phase.index < c.phase.index then _ else if phase = c.phase then _ else _) = _
  by_cases hpast : phase.index < c.phase.index
  · rw [if_pos hpast, if_pos hpast]
    rfl
  · rw [if_neg hpast, if_neg hpast]
    by_cases hsame : phase = c.phase
    · rw [if_pos hsame, if_pos hsame]
      rfl
    · rw [if_neg hsame, if_neg hsame]
      cases c.checkClosed with
      | error cause =>
          rfl
      | ok _ =>
          rfl

/-!
# Commands
-/

theorem perform_withParts {command : Command} (htree : command.isData = false)
    (hphase : command.inPhase = true) (hlabel : ∀ name, command ≠ .label name) :
    (c.withParts labels data).perform command =
      ((c.perform command).1, (c.perform command).2.withParts labels data) := by
  cases command with
  | advanceTo phase => cases hphase
  | openBlock kind requested =>
      simp only [perform, openBlock_withParts]
  | closeBlock =>
      simp only [perform, closeBlock_withParts]
  | coverBlock situation =>
      rw [perform, coverBlock_withParts, commitDone_withParts]
      rfl
  | value kind name args => rfl
  | random min max => rfl
  | unknown => rfl
  | lazy label => rfl
  | instruction name args =>
      rw [perform, instruction_withParts, commit_withParts]
      rfl
  | attach situation =>
      rw [perform, attach_withParts, commit_withParts]
      rfl
  | label name => exact absurd rfl (hlabel name)
  | output kind format args => exact Prod.ext rfl (push_withParts _)
  | newline => exact Prod.ext rfl (push_withParts _)
  | comment text => exact Prod.ext rfl (push_withParts _)
  | openComment => exact Prod.ext rfl (push_withParts _)
  | closeComment => exact Prod.ext rfl (push_withParts _)
  | origin address relative => exact Prod.ext rfl (push_withParts _)
  | align alignment =>
      rw [perform, align_withParts, commitDone_withParts]
      rfl
  | openConstraint =>
      rw [perform, openConstraint_withParts, commitDone_withParts]
      rfl
  | closeConstraint =>
      rw [perform, closeConstraint_withParts, commitDone_withParts]
      rfl
  | constrain resourceClass clauses =>
      rw [perform, constrain_withParts, commitDone_withParts]
      rfl
  | addStreamPreparator p =>
      rw [perform, addStreamPreparator_withParts, commitDone_withParts]
      rfl
  | addRegisterPreparator p =>
      rw [perform, addRegisterPreparator_withParts, commitDone_withParts]
      rfl
  | bindStream label data index length =>
      rw [perform, bindStream_withParts, commit_withParts]
      rfl
  | readStream label =>
      rw [perform, accessStream_withParts, commitDone_withParts]
      rfl
  | writeStream label =>
      rw [perform, accessStream_withParts, commitDone_withParts]
      rfl
  | data operation => cases htree
  | setOption name value =>
      rw [perform, setOption_withParts, commitDone_withParts]
      rfl

end Context
end Stimulus
