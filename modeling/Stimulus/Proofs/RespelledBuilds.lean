import Stimulus.Proofs.History
import Stimulus.Proofs.Sealing
import Stimulus.Proofs.Spellings

/-!
# Respelled builds

## Two runs side by side

Two builds are run whose commands differ only in the spelling of names.  After every
command the two contexts are equal, because the names that a context keeps are canonical
ones or keys.  So whatever is read off the contexts later is equal too, the sealed
template first of all.

## Preparators

A preparator is respelled where the modes that it is made for have the same keys and its
mnemonics are spelled alike; the holes and the other operands are the same.
-/

namespace Stimulus

open Checked

/-!
# Commands
-/

/-- Two commands that differ only in the spelling of the names in them.  The names of
labels, of streams and of resource classes are not respelled. -/
inductive Command.Respelled : Command → Command → Prop where
  | same (command : Command) : Respelled command command
  | value {name name' : String} (kind : PrimitiveKind) (args : List Argument)
      (h : SpelledAlike name name') :
      Respelled (.value kind name args) (.value kind name' args)
  | instruction {name name' : String} (args : List Argument) (h : SpelledAlike name name') :
      Respelled (.instruction name args) (.instruction name' args)
  | addStreamPreparator {p p' : StreamPreparator} (h : p.Respelled p') :
      Respelled (.addStreamPreparator p) (.addStreamPreparator p')
  | addRegisterPreparator {p p' : RegisterPreparator} (h : p.Respelled p') :
      Respelled (.addRegisterPreparator p) (.addRegisterPreparator p')
  | data {operation operation' : Data.Operation} (h : operation.Respelled operation') :
      Respelled (.data operation) (.data operation')
  | setOption {name name' : String} (value : Setting) (h : SpelledAlike name name') :
      Respelled (.setOption name value) (.setOption name' value)

/-!
# The sample build in other spellings
-/

namespace SampleBuild

def respelledPreparator : StreamPreparator where
  key := .ofNames "reg " "Reg"
  init := [⟨"la", [.hole .index, .hole .startLabel]⟩]
  read := [⟨"LW", [.hole .data, .hole .index]⟩]
  write := []

def respelled : List Command :=
  [.data (.configure ⟨".data", "M", 8⟩), .data .openSection, .data (.label "table"),
    .data .closeSection, .addStreamPreparator respelledPreparator,
    .setOption " DEFAULT-test_data" (.flag true), .advanceTo .run, .unknown, .unknown,
    .unknown, .lazy "done", .openBlock .sequence {}, .openConstraint, .constrain "REG" [],
    .closeConstraint, .bindStream "table" (register 0) (register 1) 4,
    .closeBlock, .instruction "add " [.placeholder (.unknown 2), .concrete 1],
    .instruction "MUL" [], .instruction "J" [.placeholder (.lazy 0)], .label "done"]

theorem commands_respelled : List.Forall₂ Command.Respelled commands respelled := by
  have hpreparator : preparator.Respelled respelledPreparator :=
    ⟨by decide, .cons ⟨by decide, rfl⟩ .nil, .cons ⟨by decide, rfl⟩ .nil, .nil⟩
  refine .cons (.same _) (.cons (.same _) (.cons (.same _) (.cons (.same _) ?_)))
  refine .cons (.addStreamPreparator hpreparator) (.cons (.setOption _ (by decide)) ?_)
  refine .cons (.same _) (.cons (.same _) (.cons (.same _) (.cons (.same _) ?_)))
  refine .cons (.same _) (.cons (.same _) (.cons (.same _) (.cons (.same _) ?_)))
  refine .cons (.same _) (.cons (.same _) (.cons (.same _) ?_))
  refine .cons (.instruction _ (by decide)) (.cons (.instruction _ (by decide)) ?_)
  exact .cons (.instruction _ (by decide)) (.cons (.same _) .nil)

end SampleBuild

namespace Context

variable {c : Context}

/-!
# One command
-/

theorem performData_respelled (c : Context) {operation operation' : Data.Operation}
    (h : operation.Respelled operation') :
    SameAnswer (c.performData operation) (c.performData operation') := by
  have hdata := c.data.perform_respelled h
  cases h with
  | same => exact .refl _
  | _ => exact hdata.bind fun _ => .refl _

structure SameOutcome (outcome outcome' : Except Refusal Reply × Context) : Prop where
  answer : SameAnswer outcome.1 outcome'.1
  context : outcome.2 = outcome'.2

theorem SameOutcome.commit {α : Type} (reply : α → Reply)
    {outcome outcome' : Except Refusal (α × Context)} (h : SameAnswer outcome outcome') :
    SameOutcome (c.commit reply outcome) (c.commit reply outcome') := by
  cases h with
  | accepted answer => exact ⟨.accepted _, rfl⟩
  | refused hcause => exact ⟨.refused hcause, rfl⟩

theorem SameOutcome.commitDone {outcome outcome' : Except Refusal Context}
    (h : SameAnswer outcome outcome') :
    SameOutcome (c.commitDone outcome) (c.commitDone outcome') := by
  cases h with
  | accepted next => exact ⟨.accepted _, rfl⟩
  | refused hcause => exact ⟨.refused hcause, rfl⟩

/-- A command and its respelling answer alike and leave the same context. -/
theorem perform_respelled (c : Context) {command command' : Command}
    (h : command.Respelled command') :
    SameOutcome (c.perform command) (c.perform command') := by
  cases h with
  | same =>
      exact ⟨.refl _, rfl⟩
  | value kind args h =>
      exact ⟨(c.model.primitive_respelled kind args h).map _, rfl⟩
  | instruction args h =>
      exact .commit _ ((c.model.primitive_respelled .instruction args h).bind fun _ => .refl _)
  | addStreamPreparator h =>
      exact .commitDone ((StreamPreparator.canonical_respelled c.model h).bind fun _ => .refl _)
  | addRegisterPreparator h =>
      exact .commitDone ((RegisterPreparator.canonical_respelled c.model h).bind fun _ => .refl _)
  | data h =>
      exact .commit _ (c.performData_respelled h)
  | setOption value h =>
      exact .commitDone ((c.options.setNamed_respelled value h).bind fun _ => .refl _)

/-!
# Whole builds
-/

/-- Two sequences of commands that build the same: every call answers alike in both, the
contexts at the end are equal, and sealing has the same result. -/
structure SameBuild (c : Context) (commands commands' : List Command) : Prop where
  answers : List.Forall₂ SameAnswer (c.outcomes commands) (c.outcomes commands')
  contexts : c.run commands = c.run commands'
  seals : (c.run commands).seal = (c.run commands').seal

theorem outcomes_cons (c : Context) (command : Command) (rest : List Command) :
    c.outcomes (command :: rest) =
      (c.perform command).1 :: (c.perform command).2.outcomes rest :=
  rfl

theorem outcomes_respelled {commands commands' : List Command}
    (h : List.Forall₂ Command.Respelled commands commands') :
    List.Forall₂ SameAnswer (c.outcomes commands) (c.outcomes commands') := by
  induction h generalizing c with
  | nil =>
      exact .nil
  | cons hfirst _ ih =>
      have hstep := c.perform_respelled hfirst
      rw [outcomes_cons, outcomes_cons, hstep.context]
      exact .cons hstep.answer ih

theorem run_respelled {commands commands' : List Command}
    (h : List.Forall₂ Command.Respelled commands commands') :
    c.run commands = c.run commands' := by
  induction h generalizing c with
  | nil =>
      rfl
  | cons hfirst _ ih =>
      rw [run_cons, run_cons, (c.perform_respelled hfirst).context]
      exact ih

theorem sameBuild_of_respelled (c : Context) (commands commands' : List Command)
    (h : List.Forall₂ Command.Respelled commands commands') :
    SameBuild c commands commands' where
  answers := outcomes_respelled h
  contexts := run_respelled h
  seals := congrArg Context.seal (run_respelled h)

theorem sameBuild_of_respelled_sample :
    List.Forall₂ Command.Respelled SampleBuild.commands SampleBuild.respelled ∧
      SameBuild SampleBuild.start SampleBuild.commands SampleBuild.respelled ∧
        ∃ t, (SampleBuild.start.run SampleBuild.respelled).seal = .ok t := by
  have hbuild := sameBuild_of_respelled SampleBuild.start _ _ SampleBuild.commands_respelled
  refine ⟨SampleBuild.commands_respelled, hbuild, ?_⟩
  rw [← hbuild.seals]
  exact SampleBuild.seals

end Context
end Stimulus
