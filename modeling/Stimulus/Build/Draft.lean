import Stimulus.Build.Command
import Stimulus.Data.WriterCall
import Stimulus.Tree.IndexedLabels

/-!
# Builds in place

## Order of checks and changes

Each command as a call that changes the build in place: a change is made as soon as
its turn comes, and stays if a later check ends the command.

## Phases

Only the current phase has a root.  When it is left, a new root takes its place, and its
block goes to those that are finished.
-/

namespace Stimulus

def Phase.next : Phase → Phase
  | .pre => .run
  | .run => .post
  | .post => .post

def Scope.declarationHere (s : Scope) (name : String) : LabelDeclaration :=
  ⟨name, s.head.id, .code s.head.id s.children.length⟩

structure Draft where
  name : String
  model : Model
  options : Options
  comments : CommentTokens
  phase : Phase
  finished : List (Block StreamAccess)
  root : Scope
  scopes : List Scope
  unknowns : Nat
  requests : List LabelRequest
  labels : IndexedLabels
  streamPreparators : StreamRegistry
  registerPreparators : RegisterStore
  streams : Streams
  data : Data.Writer

namespace Draft

open InPlace

def start (name : String) (model : Model) (options : Options) (comments : CommentTokens) :
    Draft where
  name := name
  model := model
  options := options
  comments := comments
  phase := .pre
  finished := []
  root := .phaseRoot .pre
  scopes := []
  unknowns := 0
  requests := []
  labels := {}
  streamPreparators := .empty
  registerPreparators := .empty
  streams := {}
  data := {}

def top (d : Draft) : Scope :=
  d.scopes.head?.getD d.root

def withTop (d : Draft) (f : Scope → Scope) : Draft :=
  match d.scopes with
  | [] => { d with root := f d.root }
  | s :: rest => { d with scopes := f s :: rest }

def modifyTop (f : Scope → Scope) : InPlace Draft Unit :=
  modify fun d => d.withTop f

def push (node : Node StreamAccess) : InPlace Draft Unit :=
  modifyTop fun s => s.push node

/-!
# Phases
-/

def checkClosed (d : Draft) : Except Refusal Unit :=
  if d.scopes.length ≠ 0 then .error (.structural (.blocksLeftOpen d.scopes.length))
  else if d.data.isOpen then .error (.structural .sectionLeftOpen)
  else .ok ()

/-- Puts a new root in the place of the current one, and answers the block of that. -/
def closePhase : InPlace Draft (Block StreamAccess) := do
  ask checkClosed
  let closed := (← get).root
  modify fun d => { d with root := .phaseRoot d.phase }
  return closed.block

def finish (block : Block StreamAccess) : InPlace Draft Unit :=
  modify fun d => { d with finished := d.finished ++ [block] }

def leavePhase : InPlace Draft Unit := do
  let block ← closePhase
  finish block
  modify fun d => { d with phase := d.phase.next }
  modify fun d => { d with root := .phaseRoot d.phase }

def leavePhases : Nat → InPlace Draft Unit
  | 0 => pure ()
  | count + 1 => do
      leavePhase
      leavePhases count

def advanceTo (phase : Phase) : InPlace Draft Unit := do
  let d ← get
  refuseIf (phase.index < d.phase.index) (.structural (.phaseAlreadyPast phase d.phase))
  leavePhases (phase.index - d.phase.index)

def finishLast : InPlace Draft (List (Block StreamAccess)) := do
  let block ← closePhase
  finish block
  return (← get).finished

/-- What a build hands over when it ends: the blocks of all phases. -/
def finishAll : InPlace Draft (List (Block StreamAccess)) := do
  advanceTo .post
  finishLast

/-!
# Blocks
-/

def openBlock (kind : ScopeKind) (requested : BlockAttributes) : InPlace Draft BlockId := do
  let scope := (← get).top.nested kind requested
  modifyTop Scope.reserve
  modify fun d => { d with scopes := scope :: d.scopes }
  return scope.head.id

/-- Takes the innermost scope off first, and checks it then. -/
def closeBlock : InPlace Draft Unit := do
  match (← get).scopes with
  | [] => check (.error (.structural .nothingToClose))
  | s :: rest =>
      modify fun d => { d with scopes := rest }
      refuseIf (s.constraining = true) (.structural .constraintLeftOpen)
      check (s.block.checkCover.mapError .structural)
      push s.block.toNode

def coverBlock (situation : Situation) : InPlace Draft Unit := do
  match (← get).scopes with
  | [] => check (.error (.structural .situationNeedsBlock))
  | s :: rest =>
      refuseIf (s.head.situation.isSome = true)
        (.structural (.situationAlreadyAttached (.block s.head.id)))
      let head := { s.head with situation := some situation }
      modify fun d => { d with scopes := { s with head } :: rest }

/-!
# Calls and placeholders
-/

def value (kind : PrimitiveKind) (name : String) (args : List Argument) :
    InPlace Draft Primitive :=
  ask fun d => d.model.primitive kind name args

def instruction (name : String) (args : List Argument) : InPlace Draft Call := do
  let primitive ← value .instruction name args
  let call : Call := ⟨primitive, none⟩
  push (.call call)
  return call

def attach (situation : Situation) : InPlace Draft (Option Call) := do
  match (← get).top.children.getLast? with
  | some (.call c) =>
      let c ← check ((c.attach situation).mapError .structural)
      modifyTop fun s => { s with children := s.children.dropLast ++ [.call c] }
      return some c
  | _ => return none

def unknown : InPlace Draft Argument := do
  let count := (← get).unknowns
  modify fun d => { d with unknowns := d.unknowns + 1 }
  return .placeholder (.unknown count)

def lazy (label : String) : InPlace Draft Argument := do
  let d ← get
  let request : LabelRequest := ⟨label, d.top.head.id⟩
  modify fun d => { d with requests := d.requests ++ [request] }
  return .placeholder (.lazy d.requests.length)

/-!
# Labels and directives
-/

def onLabels {α : Type} (m : InPlace IndexedLabels α) : InPlace Draft α :=
  onPart labels (fun labels d => { d with labels }) m

def label (name : String) : InPlace Draft Unit := do
  let scope := (← get).top
  onLabels (IndexedLabels.declare (scope.declarationHere name))
  push (.label name)

def align (alignment : UInt64) : InPlace Draft Unit := do
  refuseIf (alignment = 0) (.argument .alignmentZero)
  push (.directive (.align alignment))

/-!
# Allocation constraints
-/

def openConstraint : InPlace Draft Unit := do
  match (← get).scopes with
  | [] => check (.error (.structural .constraintNeedsSequence))
  | s :: rest =>
      refuseUnless ((s.head.kind.isSequence && !s.constraining) = true)
        (.structural .constraintNeedsSequence)
      modify fun d => { d with scopes := { s with constraining := true } :: rest }

def closeConstraint : InPlace Draft Unit := do
  match (← get).scopes with
  | [] => check (.error (.structural .nothingToClose))
  | s :: rest =>
      refuseUnless (s.constraining = true) (.structural .nothingToClose)
      modify fun d => { d with scopes := { s with constraining := false } :: rest }

def constrain (resourceClass : String) (clauses : List AllocationClause) :
    InPlace Draft Unit := do
  let model := (← get).model
  match (← get).scopes with
  | [] => check (.error (.structural .allocationNeedsConstraint))
  | s :: rest =>
      refuseUnless (s.constraining = true) (.structural .allocationNeedsConstraint)
      let a ← check (Allocation.ofClauses resourceClass clauses)
      refuseIf ((model.find? .mode a.resourceClass).isNone = true)
        (.structural (.notInModel a.resourceClass))
      refuseIf ((s.head.allocations.any fun other => other.covers a.resourceClass) = true)
        (.structural (.classConstrainedTwice a.resourceClass))
      let head := { s.head with allocations := s.head.allocations ++ [a] }
      modify fun d => { d with scopes := { s with head } :: rest }

/-!
# Preparators and streams
-/

def addStreamPreparator (p : StreamPreparator) : InPlace Draft Unit := do
  let p ← ask fun d => p.canonical d.model
  modify fun d => { d with streamPreparators := d.streamPreparators.register p }

def addRegisterPreparator (p : RegisterPreparator) : InPlace Draft Unit := do
  let p ← ask fun d => p.canonical d.model
  modify fun d => { d with registerPreparators := d.registerPreparators.register p }

def access (stream : StreamId) (part : StreamPart) : InPlace Draft Unit := do
  let block := (← get).top.nextId
  modifyTop Scope.reserve
  push (.access ⟨stream, part, block⟩)

def bindStream (label : String) (data index : Primitive) (length : Nat) :
    InPlace Draft StreamId := do
  let d ← get
  refuseIf (data.kind ≠ .mode) (.argument (.notAMode .streamData data))
  refuseIf (index.kind ≠ .mode) (.argument (.notAMode .streamIndex index))
  refuseIf (length = 0) (.argument (.notPositive .streamLength))
  refuseIf ((d.streams.find? label).isSome = true) (.structural (.streamLabelTaken label))
  let preparator ← check
    ((d.streamPreparators.find (.ofNames data.name index.name)).mapError .structural)
  let id : StreamId := ⟨d.streams.bound.length⟩
  let stream : BoundStream := ⟨id, label, data, index, length, preparator⟩
  modify fun d => { d with streams := ⟨d.streams.bound ++ [stream]⟩ }
  access id .init
  return id

def accessStream (label : String) (part : StreamPart) : InPlace Draft Unit := do
  let stream ← ask fun d => (d.streams.find label).mapError .structural
  access stream.id part

/-!
# Data and options
-/

def onData {α : Type} (m : InPlace Data.Writer α) : InPlace Draft α :=
  onPart data (fun data d => { d with data }) m

/-- Declares the label before the writer looks up the section and records it. -/
def dataLabel (name : String) : InPlace Draft UInt64 := do
  let address ← ask fun d => d.data.addressHere
  onLabels (IndexedLabels.declare ⟨name, .root, .data address⟩)
  onData (Data.WriterCall.label name)

def performData : Data.Operation → InPlace Draft (Option UInt64)
  | .label name => return some (← dataLabel name)
  | operation => onData (Data.WriterCall.perform operation)

def setOption (name : String) (value : Setting) : InPlace Draft Unit := do
  let option ← check ((Options.lookup name).mapError .option)
  let options ← ask fun d => (d.options.set option value).mapError .option
  modify fun d => { d with options }

/-!
# Commands
-/

def done (m : InPlace Draft Unit) : InPlace Draft Reply := do
  m
  return .done

def command : Command → InPlace Draft Reply
  | .advanceTo phase => done (advanceTo phase)
  | .openBlock kind requested => return .block (← openBlock kind requested)
  | .closeBlock => done closeBlock
  | .coverBlock situation => done (coverBlock situation)
  | .value kind name args => return .argument (← value kind name args).toArgument
  | .random min max => return .argument (← check ((Argument.randomIn min max).mapError .argument))
  | .unknown => return .argument (← unknown)
  | .lazy label => return .argument (← lazy label)
  | .instruction name args => return .call (← instruction name args)
  | .attach situation => return ((← attach situation).map Reply.call).getD .done
  | .label name => done (label name)
  | .output kind format args => done (push (.output ⟨kind, format, args⟩))
  | .newline => done (push (.output (.text "")))
  | .comment text => done do
      let line := (← get).comments.line ++ text
      push (.output (.text line))
  | .openComment => done do
      let token := (← get).comments.blockStart
      push (.output (.text token))
  | .closeComment => done do
      let token := (← get).comments.blockStop
      push (.output (.text token))
  | .origin address relative => done (push (.directive (.origin address relative)))
  | .align alignment => done (align alignment)
  | .openConstraint => done openConstraint
  | .closeConstraint => done closeConstraint
  | .constrain resourceClass clauses => done (constrain resourceClass clauses)
  | .addStreamPreparator p => done (addStreamPreparator p)
  | .addRegisterPreparator p => done (addRegisterPreparator p)
  | .bindStream label data index length => return .stream (← bindStream label data index length)
  | .readStream label => done (accessStream label .read)
  | .writeStream label => done (accessStream label .write)
  | .data operation => return ((← performData operation).map Reply.address).getD .done
  | .setOption name value => done (setOption name value)

def perform (d : Draft) (c : Command) : Except Refusal Reply × Draft :=
  (command c).call d

def run (d : Draft) (commands : List Command) : Draft :=
  commands.foldl (fun d c => (d.perform c).2) d

end Draft
end Stimulus
