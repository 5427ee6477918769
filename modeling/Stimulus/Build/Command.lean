import Stimulus.Build.Context

/-!
# Commands

## Builds as sequences of commands

Every call on a context is a command.  Performing it answers a reply or a cause,
and always the context on which the build goes on.
-/

namespace Stimulus

inductive Command where
  | advanceTo (phase : Phase)
  | openBlock (kind : ScopeKind) (requested : BlockAttributes)
  | closeBlock
  | coverBlock (situation : Situation)
  | value (kind : PrimitiveKind) (name : String) (args : List Argument)
  | random (min max : Int64)
  | unknown
  | lazy (label : String)
  | instruction (name : String) (args : List Argument)
  | attach (situation : Situation)
  | label (name : String)
  | output (kind : OutputKind) (format : String) (args : List FormatArgument)
  | newline
  | comment (text : String)
  | openComment
  | closeComment
  | origin (address : UInt64) (relative : Bool)
  | align (alignment : UInt64)
  | openConstraint
  | closeConstraint
  | constrain (resourceClass : String) (clauses : List AllocationClause)
  | addStreamPreparator (preparator : StreamPreparator)
  | addRegisterPreparator (preparator : RegisterPreparator)
  | bindStream (label : String) (data index : Primitive) (length : Nat)
  | readStream (label : String)
  | writeStream (label : String)
  | data (operation : Data.Operation)
  | setOption (name : String) (value : Setting)

inductive Reply where
  | done
  | block (id : BlockId)
  | argument (argument : Argument)
  | call (call : Call)
  | stream (id : StreamId)
  | address (address : UInt64)

namespace Context

def commit {α : Type} (c : Context) (reply : α → Reply) :
    Except Refusal (α × Context) → Except Refusal Reply × Context
  | .ok (a, next) => (.ok (reply a), next)
  | .error cause => (.error cause, c)

def commitDone (c : Context) :
    Except Refusal Context → Except Refusal Reply × Context
  | .ok next => (.ok .done, next)
  | .error cause => (.error cause, c)

def perform (c : Context) : Command → Except Refusal Reply × Context
  | .advanceTo phase => c.commitDone (c.advanceTo phase)
  | .openBlock kind requested =>
      let (id, next) := c.openBlock kind requested
      (.ok (.block id), next)
  | .closeBlock =>
      let (outcome, next) := c.closeBlock
      (outcome.map fun _ => .done, next)
  | .coverBlock situation => c.commitDone (c.coverBlock situation)
  | .value kind name args =>
      ((c.model.primitive kind name args).map fun p => .argument p.toArgument, c)
  | .random min max =>
      (((Argument.randomIn min max).mapError .argument).map .argument, c)
  | .unknown =>
      let (placeholder, next) := c.unknown
      (.ok (.argument placeholder), next)
  | .lazy label =>
      let (placeholder, next) := c.lazy label
      (.ok (.argument placeholder), next)
  | .instruction name args => c.commit .call (c.instruction name args)
  | .attach situation =>
      c.commit (fun call => (call.map Reply.call).getD .done) (c.attach situation)
  | .label name => c.commitDone (c.label name)
  | .output kind format args => (.ok .done, c.output kind format args)
  | .newline => (.ok .done, c.output .text "" [])
  | .comment text => (.ok .done, c.comment text)
  | .openComment => (.ok .done, c.openComment)
  | .closeComment => (.ok .done, c.closeComment)
  | .origin address relative =>
      (.ok .done, c.push (.directive (.origin address relative)))
  | .align alignment => c.commitDone (c.align alignment)
  | .openConstraint => c.commitDone c.openConstraint
  | .closeConstraint => c.commitDone c.closeConstraint
  | .constrain resourceClass clauses =>
      c.commitDone (c.constrain resourceClass clauses)
  | .addStreamPreparator preparator => c.commitDone (c.addStreamPreparator preparator)
  | .addRegisterPreparator preparator =>
      c.commitDone (c.addRegisterPreparator preparator)
  | .bindStream label data index length =>
      c.commit .stream (c.bindStream label data index length)
  | .readStream label => c.commitDone (c.accessStream label .read)
  | .writeStream label => c.commitDone (c.accessStream label .write)
  | .data operation =>
      c.commit (fun address => (address.map Reply.address).getD .done)
        (c.performData operation)
  | .setOption name value => c.commitDone (c.setOption name value)

def run (c : Context) (commands : List Command) : Context :=
  commands.foldl (fun c command => (c.perform command).2) c

def outcomes (c : Context) : List Command → List (Except Refusal Reply)
  | [] => []
  | command :: rest =>
      let (outcome, next) := c.perform command
      outcome :: next.outcomes rest

end Context
end Stimulus
