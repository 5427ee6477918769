import Stimulus.Build.Command
import Stimulus.Proofs.Checked

/-!
# Steps of a build

## One command

`Step` lists everything that a command can do to a context, with the conditions
under which it does so.  `perform_step` says that the list is complete, so that
a law of all builds is a case analysis on `Step`.

## Refused commands

A refused command leaves the context as it is.  The end of a block is the one
exception: it may drop the block.
-/

namespace Stimulus

/-!
# Groups of commands
-/

namespace Command

def leaf? (comments : CommentTokens) : Command → Option (Node StreamAccess)
  | output kind format args => some (.output ⟨kind, format, args⟩)
  | newline => some (.output (.text ""))
  | comment words => some (.output (.text (comments.line ++ words)))
  | openComment => some (.output (.text comments.blockStart))
  | closeComment => some (.output (.text comments.blockStop))
  | origin address relative => some (.directive (.origin address relative))
  | align alignment => some (.directive (.align alignment))
  | _ => none

def accessed? : Command → Option (String × StreamPart)
  | readStream name => some (name, .read)
  | writeStream name => some (name, .write)
  | _ => none

def mayOnlyAnswer : Command → Bool
  | advanceTo _ => true
  | value _ _ _ => true
  | random _ _ => true
  | attach _ => true
  | _ => false

end Command

/-!
# What a command does
-/

/-- What a command answers in the context `c`, and the context that it leaves. -/
inductive Step (c : Context) : Command → Except Refusal Reply → Context → Prop where
  | refused {command : Command} {cause : Refusal} :
      Step c command (.error cause) c
  | dropped {s : Scope} {rest : List Scope} {cause : Refusal}
      (hscopes : c.scopes = s :: rest) :
      Step c .closeBlock (.error cause) { c with scopes := rest }
  | answered {command : Command} {reply : Reply} (hcommand : command.mayOnlyAnswer = true) :
      Step c command (.ok reply) c
  | advanced {phase : Phase} (horder : c.phase.index < phase.index) (hscopes : c.scopes = [])
      (hdata : c.data.isOpen = false) :
      Step c (.advanceTo phase) (.ok .done) { c with phase }
  | opened {kind : ScopeKind} {requested : BlockAttributes} :
      Step c (.openBlock kind requested) (.ok (.block c.top.nextId))
        { c.modifyTop Scope.reserve with
          scopes := c.top.nested kind requested :: (c.modifyTop Scope.reserve).scopes }
  | closed {s : Scope} {rest : List Scope} (hscopes : c.scopes = s :: rest)
      (hconstraining : s.constraining = false) (hcover : s.block.checkCover = .ok ()) :
      Step c .closeBlock (.ok .done) ({ c with scopes := rest }.push s.block.toNode)
  | covered {s : Scope} {rest : List Scope} {situation : Situation}
      (hscopes : c.scopes = s :: rest) (hsituation : s.head.situation = none) :
      Step c (.coverBlock situation) (.ok .done)
        { c with
          scopes := { s with head := { s.head with situation := some situation } } :: rest }
  | unknownIssued :
      Step c .unknown (.ok (.argument (.placeholder (.unknown c.unknowns))))
        { c with unknowns := c.unknowns + 1 }
  | lazyIssued {label : String} :
      Step c (.lazy label) (.ok (.argument (.placeholder (.lazy c.requests.length))))
        { c with requests := c.requests ++ [⟨label, c.top.head.id⟩] }
  | called {name : String} {args : List Argument} {entry : ModelEntry}
      (hentry : c.model.resolve .instruction name args.length = .ok entry) :
      Step c (.instruction name args) (.ok (.call ⟨⟨.instruction, entry.name, args⟩, none⟩))
        (c.push (.call ⟨⟨.instruction, entry.name, args⟩, none⟩))
  | attached {situation : Situation} {call : Call} {front : List (Node StreamAccess)}
      (hchildren : c.top.children = front ++ [.call call]) (hsituation : call.situation = none) :
      Step c (.attach situation) (.ok (.call { call with situation := some situation }))
        (c.modifyTop fun _ =>
          { c.top with
            children := front ++ [.call { call with situation := some situation }] })
  | labelled {name : String} {labels : Labels}
      (hlabels :
        c.labels.declareAt name c.top.head.id c.top.children.length = .ok labels) :
      Step c (.label name) (.ok .done) ({ c with labels }.push (.label name))
  | placed {command : Command} {node : Node StreamAccess}
      (hleaf : command.leaf? c.comments = some node) :
      Step c command (.ok .done) (c.push node)
  | constraintOpened {s : Scope} {rest : List Scope} (hscopes : c.scopes = s :: rest)
      (hsequence : s.head.kind.isSequence = true) (hconstraining : s.constraining = false) :
      Step c .openConstraint (.ok .done)
        { c with scopes := { s with constraining := true } :: rest }
  | constraintClosed {s : Scope} {rest : List Scope} (hscopes : c.scopes = s :: rest)
      (hconstraining : s.constraining = true) :
      Step c .closeConstraint (.ok .done)
        { c with scopes := { s with constraining := false } :: rest }
  | constrained {s s' : Scope} {rest : List Scope} {resourceClass : String}
      {clauses : List AllocationClause} {a : Allocation}
      (hscopes : c.scopes = s :: rest) (hconstraining : s.constraining = true)
      (hclauses : Allocation.ofClauses resourceClass clauses = .ok a)
      (hscope : s.constrain c.model a = .ok s') :
      Step c (.constrain resourceClass clauses) (.ok .done) { c with scopes := s' :: rest }
  | streamPrepared {p p' : StreamPreparator} (hcanonical : p.canonical c.model = .ok p') :
      Step c (.addStreamPreparator p) (.ok .done)
        { c with streamPreparators := c.streamPreparators.register p' }
  | registerPrepared {p p' : RegisterPreparator} (hcanonical : p.canonical c.model = .ok p') :
      Step c (.addRegisterPreparator p) (.ok .done)
        { c with registerPreparators := c.registerPreparators.register p' }
  | streamBound {label : String} {data index : Primitive} {length : Nat}
      {stream : BoundStream} {streams : Streams}
      (hbind :
        c.streams.bind c.streamPreparators label data index length = .ok (stream, streams)) :
      Step c (.bindStream label data index length) (.ok (.stream stream.id))
        ({ c with streams }.access stream.id .init)
  | streamAccessed {command : Command} {label : String} {part : StreamPart}
      {stream : BoundStream} (hcommand : command.accessed? = some (label, part))
      (hstream : c.streams.find? label = some stream) :
      Step c command (.ok .done) (c.access stream.id part)
  | dataPerformed {operation : Data.Operation} {address : Option UInt64} {data : Data.Writer}
      (hoperation : ∀ name, operation ≠ .label name)
      (hdata : c.data.perform operation = .ok (address, data)) :
      Step c (.data operation) (.ok ((address.map Reply.address).getD .done)) { c with data }
  | dataLabelled {name : String} {opened : Data.OpenSection} {labels : Labels}
      (hopened : c.data.opened = some opened)
      (hlabels : c.labels.declareAddress name c.data.cursor = .ok labels) :
      Step c (.data (.label name)) (.ok (.address c.data.cursor))
        { c with
          labels
          data := c.data.append opened (.label name c.data.cursor) c.data.cursor }
  | optionSet {name : String} {value : Setting} {options : Options}
      (hoptions : c.options.setNamed name value = .ok options) :
      Step c (.setOption name value) (.ok .done) { c with options }

namespace Step

open Checked

variable {c next : Context}

/-!
# Accepted calls

One lemma for each call that checks something: what has to hold for the call to
be accepted, and the context that it leaves.
-/

theorem advanceTo {phase : Phase} (h : c.advanceTo phase = .ok next) :
    Step c (.advanceTo phase) (.ok .done) next := by
  unfold Context.advanceTo at h
  split at h
  · cases h
  · rename_i hnotPast
    split at h
    · cases h
      exact .answered rfl
    · rename_i hother
      rcases bind_eq_ok.mp h with ⟨_, hclosed, hnext⟩
      cases hnext
      have horder : c.phase.index < phase.index := by
        have hne : phase.index ≠ c.phase.index := by
          cases phase <;> cases hphase : c.phase <;> simp_all [Phase.index]
        omega
      unfold Context.checkClosed at hclosed
      split at hclosed
      · cases hclosed
      · rename_i hdepth
        split at hclosed
        · cases hclosed
        · rename_i hopen
          have hscopes : c.scopes = [] := by
            simpa [Context.depth] using hdepth
          exact .advanced horder hscopes (by simpa using hopen)

theorem closeBlock :
    Step c .closeBlock (c.closeBlock.1.map fun _ => .done) c.closeBlock.2 := by
  unfold Context.closeBlock
  cases hscopes : c.scopes with
  | nil =>
      exact .refused
  | cons s rest =>
      by_cases hconstraining : s.constraining = true
      · simp only [hconstraining, if_true]
        exact .dropped hscopes
      · simp only [hconstraining]
        cases hcover : s.block.checkCover with
        | error cause =>
            exact .dropped hscopes
        | ok _ =>
            exact .closed hscopes (by simpa using hconstraining) hcover

theorem coverBlock {situation : Situation} (h : c.coverBlock situation = .ok next) :
    Step c (.coverBlock situation) (.ok .done) next := by
  unfold Context.coverBlock at h
  split at h
  · cases h
  · rename_i s rest hscopes
    split at h
    · cases h
    · rename_i hsituation
      cases h
      exact .covered hscopes (by simpa using hsituation)

theorem instruction {name : String} {args : List Argument} {call : Call}
    (h : c.instruction name args = .ok (call, next)) :
    Step c (.instruction name args) (.ok (.call call)) next := by
  rcases bind_eq_ok.mp h with ⟨primitive, hprimitive, hnext⟩
  rcases bind_eq_ok.mp hprimitive with ⟨entry, hentry, hvalue⟩
  cases hvalue
  cases hnext
  exact .called hentry

theorem attach {situation : Situation} {call : Option Call}
    (h : c.attach situation = .ok (call, next)) :
    Step c (.attach situation) (.ok ((call.map Reply.call).getD .done)) next := by
  unfold Context.attach Scope.attachLast at h
  cases hlast : c.top.children.getLast? with
  | none =>
      simp only [hlast] at h
      cases h
      exact .answered rfl
  | some node =>
      rcases List.getLast?_eq_some_iff.mp hlast with ⟨front, hchildren⟩
      cases node with
      | call last =>
          simp only [hlast, Call.attach] at h
          cases hsituation : last.situation with
          | some other =>
              simp [hsituation, bind, Except.bind] at h
          | none =>
              simp only [hsituation, Option.isSome_none, hchildren,
                List.dropLast_concat] at h
              cases h
              exact .attached hchildren hsituation
      | _ =>
          simp only [hlast] at h
          cases h
          exact .answered rfl

theorem label {name : String} (h : c.label name = .ok next) :
    Step c (.label name) (.ok .done) next := by
  rcases bind_eq_ok.mp h with ⟨labels, hlabels, hnext⟩
  cases hnext
  exact .labelled (mapError_eq_ok.mp hlabels)

theorem align {alignment : UInt64} (h : c.align alignment = .ok next) :
    Step c (.align alignment) (.ok .done) next := by
  unfold Context.align at h
  split at h
  · cases h
  · cases h
    exact .placed rfl

theorem openConstraint (h : c.openConstraint = .ok next) :
    Step c .openConstraint (.ok .done) next := by
  unfold Context.openConstraint at h
  split at h
  · rename_i s rest hscopes
    split at h
    · rename_i hguard
      cases h
      simp only [Bool.and_eq_true, Bool.not_eq_true'] at hguard
      exact .constraintOpened hscopes hguard.left hguard.right
    · cases h
  · cases h

theorem closeConstraint (h : c.closeConstraint = .ok next) :
    Step c .closeConstraint (.ok .done) next := by
  unfold Context.closeConstraint at h
  split at h
  · rename_i s rest hscopes
    split at h
    · rename_i hconstraining
      cases h
      exact .constraintClosed hscopes hconstraining
    · cases h
  · cases h

theorem constrain {resourceClass : String} {clauses : List AllocationClause}
    (h : c.constrain resourceClass clauses = .ok next) :
    Step c (.constrain resourceClass clauses) (.ok .done) next := by
  unfold Context.constrain at h
  split at h
  · rename_i s rest hscopes
    split at h
    · rename_i hconstraining
      rcases bind_eq_ok.mp h with ⟨a, hclauses, hrest⟩
      rcases bind_eq_ok.mp hrest with ⟨s', hscope, hnext⟩
      cases hnext
      exact .constrained hscopes hconstraining hclauses (mapError_eq_ok.mp hscope)
    · cases h
  · cases h

theorem addStreamPreparator {p : StreamPreparator} (h : c.addStreamPreparator p = .ok next) :
    Step c (.addStreamPreparator p) (.ok .done) next := by
  rcases bind_eq_ok.mp h with ⟨p', hcanonical, hnext⟩
  cases hnext
  exact .streamPrepared hcanonical

theorem addRegisterPreparator {p : RegisterPreparator}
    (h : c.addRegisterPreparator p = .ok next) :
    Step c (.addRegisterPreparator p) (.ok .done) next := by
  rcases bind_eq_ok.mp h with ⟨p', hcanonical, hnext⟩
  cases hnext
  exact .registerPrepared hcanonical

theorem bindStream {label : String} {data index : Primitive} {length : Nat} {id : StreamId}
    (h : c.bindStream label data index length = .ok (id, next)) :
    Step c (.bindStream label data index length) (.ok (.stream id)) next := by
  rcases bind_eq_ok.mp h with ⟨⟨stream, streams⟩, hbind, hnext⟩
  cases hnext
  exact .streamBound hbind

theorem accessStream {command : Command} {label : String} {part : StreamPart}
    (hcommand : command.accessed? = some (label, part))
    (h : c.accessStream label part = .ok next) :
    Step c command (.ok .done) next := by
  rcases bind_eq_ok.mp h with ⟨stream, hfind, hnext⟩
  cases hnext
  have hfound := mapError_eq_ok.mp hfind
  unfold Streams.find at hfound
  split at hfound
  · rename_i found hstream
    cases hfound
    exact .streamAccessed hcommand hstream
  · cases hfound

theorem performData {operation : Data.Operation} {address : Option UInt64}
    (h : c.performData operation = .ok (address, next)) :
    Step c (.data operation) (.ok ((address.map Reply.address).getD .done)) next := by
  unfold Context.performData at h
  split at h
  · rename_i name
    rcases bind_eq_ok.mp h with ⟨here, hhere, hdeclare⟩
    rcases bind_eq_ok.mp hhere with ⟨opened, hsection, hcursor⟩
    cases hcursor
    rcases bind_eq_ok.mp hdeclare with ⟨labels, hlabels, hplace⟩
    rcases bind_eq_ok.mp hplace with ⟨⟨placed, data⟩, hperformed, hnext⟩
    cases hnext
    unfold Data.Writer.currentSection at hsection
    split at hsection
    · rename_i found hopened
      cases hsection
      simp only [Data.Writer.perform, Data.Writer.label, Data.Writer.currentSection,
        hopened] at hperformed
      cases hperformed
      exact .dataLabelled hopened (mapError_eq_ok.mp hlabels)
    · cases hsection
  · rename_i hoperation
    rcases bind_eq_ok.mp h with ⟨labels, hlabels, hplace⟩
    cases hlabels
    rcases bind_eq_ok.mp hplace with ⟨⟨placed, data⟩, hperformed, hnext⟩
    cases hnext
    exact .dataPerformed hoperation hperformed

theorem setOption {name : String} {value : Setting} (h : c.setOption name value = .ok next) :
    Step c (.setOption name value) (.ok .done) next := by
  rcases bind_eq_ok.mp h with ⟨options, hoptions, hnext⟩
  cases hnext
  exact .optionSet (mapError_eq_ok.mp hoptions)

/-!
# All commands
-/

theorem commit {α : Type} {command : Command} {reply : α → Reply}
    {result : Except Refusal (α × Context)}
    (haccepted : ∀ a next, result = .ok (a, next) → Step c command (.ok (reply a)) next) :
    Step c command (c.commit reply result).1 (c.commit reply result).2 := by
  cases result with
  | error cause =>
      exact .refused
  | ok answer =>
      exact haccepted answer.1 answer.2 rfl

theorem commitDone {command : Command} {result : Except Refusal Context}
    (haccepted : ∀ next, result = .ok next → Step c command (.ok .done) next) :
    Step c command (c.commitDone result).1 (c.commitDone result).2 := by
  cases result with
  | error cause =>
      exact .refused
  | ok next =>
      exact haccepted next rfl

theorem unchanged {command : Command} {outcome : Except Refusal Reply}
    (hcommand : command.mayOnlyAnswer = true) : Step c command outcome c := by
  cases outcome with
  | error cause =>
      exact .refused
  | ok reply =>
      exact .answered hcommand

end Step

theorem Context.perform_step (c : Context) (command : Command) :
    Step c command (c.perform command).1 (c.perform command).2 := by
  cases command with
  | advanceTo phase => exact .commitDone fun _ h => .advanceTo h
  | openBlock kind requested => exact .opened
  | closeBlock => exact .closeBlock
  | coverBlock situation => exact .commitDone fun _ h => .coverBlock h
  | value kind name args => exact .unchanged rfl
  | random min max => exact .unchanged rfl
  | unknown => exact .unknownIssued
  | lazy label => exact .lazyIssued
  | instruction name args => exact .commit fun _ _ h => .instruction h
  | attach situation => exact .commit fun _ _ h => .attach h
  | label name => exact .commitDone fun _ h => .label h
  | output kind format args => exact .placed rfl
  | newline => exact .placed rfl
  | comment text => exact .placed rfl
  | openComment => exact .placed rfl
  | closeComment => exact .placed rfl
  | origin address relative => exact .placed rfl
  | align alignment => exact .commitDone fun _ h => .align h
  | openConstraint => exact .commitDone fun _ h => .openConstraint h
  | closeConstraint => exact .commitDone fun _ h => .closeConstraint h
  | constrain resourceClass clauses => exact .commitDone fun _ h => .constrain h
  | addStreamPreparator p => exact .commitDone fun _ h => .addStreamPreparator h
  | addRegisterPreparator p => exact .commitDone fun _ h => .addRegisterPreparator h
  | bindStream label data index length => exact .commit fun _ _ h => .bindStream h
  | readStream label => exact .commitDone fun _ h => .accessStream rfl h
  | writeStream label => exact .commitDone fun _ h => .accessStream rfl h
  | data operation => exact .commit fun _ _ h => .performData h
  | setOption name value => exact .commitDone fun _ h => .setOption h

end Stimulus
