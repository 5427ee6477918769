import Stimulus.Build.Scope
import Stimulus.Data.Writer
import Stimulus.Tree.Labels
import Stimulus.Pattern.Register
import Stimulus.Primitive.Slots
import Stimulus.Request.Options

/-!
# Build contexts

## State of a build

A context holds everything that building one template changes: the phase, the
roots of the phases, the open scopes, the placeholders issued, the labels, the
preparators, the streams and the data sections.

## Calls on a context

A call that can be refused answers a cause, and then the context is as before.
The one exception is the end of a block: the block is taken off the open scopes
before it is checked, and a block that fails its checks is dropped.
-/

namespace Stimulus

structure LabelRequest where
  label : String
  origin : BlockId
deriving DecidableEq

structure Context where
  name : String
  model : Model
  options : Options
  comments : CommentTokens
  phase : Phase
  roots : PhaseTable Scope
  scopes : List Scope
  unknowns : Nat
  /-- The label references issued; a reference is its position in this list. -/
  requests : List LabelRequest
  labels : Labels
  streamPreparators : StreamRegistry
  registerPreparators : RegisterStore
  streams : Streams
  data : Data.Writer

namespace Context

def start (name : String) (model : Model) (options : Options) (comments : CommentTokens) :
    Context where
  name := name
  model := model
  options := options
  comments := comments
  phase := .pre
  roots := .ofFn Scope.phaseRoot
  scopes := []
  unknowns := 0
  requests := []
  labels := {}
  streamPreparators := .empty
  registerPreparators := .empty
  streams := {}
  data := {}

def depth (c : Context) : Nat :=
  c.scopes.length

def top (c : Context) : Scope :=
  match c.scopes with
  | [] => c.roots.get c.phase
  | s :: _ => s

def modifyTop (c : Context) (f : Scope → Scope) : Context :=
  match c.scopes with
  | [] => { c with roots := c.roots.modify c.phase f }
  | s :: rest => { c with scopes := f s :: rest }

def push (c : Context) (node : Node StreamAccess) : Context :=
  c.modifyTop fun s => s.push node

/-!
# Phases
-/

def checkClosed (c : Context) : Except Refusal Unit :=
  if c.depth ≠ 0 then .error (.structural (.blocksLeftOpen c.depth))
  else if c.data.isOpen then .error (.structural .sectionLeftOpen)
  else .ok ()

/-- Moves forward to a phase; those in between stay empty. -/
def advanceTo (c : Context) (phase : Phase) : Except Refusal Context :=
  if phase.index < c.phase.index then
    .error (.structural (.phaseAlreadyPast phase c.phase))
  else if phase = c.phase then .ok c
  else do
    c.checkClosed
    return { c with phase }

/-!
# Blocks
-/

def openBlock (c : Context) (kind : ScopeKind) (requested : BlockAttributes) :
    BlockId × Context :=
  let scope := c.top.nested kind requested
  let c := c.modifyTop Scope.reserve
  (scope.head.id, { c with scopes := scope :: c.scopes })

/-- Takes the innermost scope off and appends it to the one around it, unless a
constraint scope is open in it or its situation covers another one. -/
def closeBlock (c : Context) : Except Refusal Unit × Context :=
  match c.scopes with
  | [] => (.error (.structural .nothingToClose), c)
  | s :: rest =>
      let c := { c with scopes := rest }
      if s.constraining then (.error (.structural .constraintLeftOpen), c)
      else
        match s.block.checkCover with
        | .error cause => (.error (.structural cause), c)
        | .ok () => (.ok (), c.push s.block.toNode)

def coverBlock (c : Context) (situation : Situation) : Except Refusal Context :=
  match c.scopes with
  | [] => .error (.structural .situationNeedsBlock)
  | s :: rest =>
      if s.head.situation.isSome then
        .error (.structural (.situationAlreadyAttached (.block s.head.id)))
      else
        let head := { s.head with situation := some situation }
        .ok { c with scopes := { s with head } :: rest }

/-!
# Calls and placeholders
-/

def instruction (c : Context) (name : String) (args : List Argument) :
    Except Refusal (Call × Context) := do
  let primitive ← c.model.primitive .instruction name args
  let call : Call := ⟨primitive, none⟩
  return (call, c.push (.call call))

/-- Attaches a situation to the call that was appended last.  Where the innermost
scope does not end in a call there is nothing to attach to, and nothing happens. -/
def attach (c : Context) (situation : Situation) :
    Except Refusal (Option Call × Context) :=
  match c.top.attachLast situation with
  | .error cause => .error (.structural cause)
  | .ok none => .ok (none, c)
  | .ok (some (call, scope)) => .ok (some call, c.modifyTop fun _ => scope)

def unknown (c : Context) : Argument × Context :=
  (.placeholder (.unknown c.unknowns), { c with unknowns := c.unknowns + 1 })

def lazy (c : Context) (label : String) : Argument × Context :=
  (.placeholder (.lazy c.requests.length),
    { c with requests := c.requests ++ [⟨label, c.top.head.id⟩] })

/-!
# Labels, outputs and directives
-/

def label (c : Context) (name : String) : Except Refusal Context := do
  let labels ← (c.labels.declareAt name c.top.head.id
    c.top.children.length).mapError .structural
  return { c with labels }.push (.label name)

def output (c : Context) (kind : OutputKind) (format : String)
    (args : List FormatArgument) : Context :=
  c.push (.output ⟨kind, format, args⟩)

def comment (c : Context) (text : String) : Context :=
  c.output .text (c.comments.line ++ text) []

def openComment (c : Context) : Context :=
  c.output .text c.comments.blockStart []

def closeComment (c : Context) : Context :=
  c.output .text c.comments.blockStop []

def align (c : Context) (alignment : UInt64) : Except Refusal Context :=
  if alignment = 0 then .error (.argument .alignmentZero)
  else .ok (c.push (.directive (.align alignment)))

/-!
# Allocation constraints
-/

def openConstraint (c : Context) : Except Refusal Context :=
  match c.scopes with
  | s :: rest =>
      if s.head.kind.isSequence && !s.constraining then
        .ok { c with scopes := { s with constraining := true } :: rest }
      else .error (.structural .constraintNeedsSequence)
  | [] => .error (.structural .constraintNeedsSequence)

def closeConstraint (c : Context) : Except Refusal Context :=
  match c.scopes with
  | s :: rest =>
      if s.constraining then
        .ok { c with scopes := { s with constraining := false } :: rest }
      else .error (.structural .nothingToClose)
  | [] => .error (.structural .nothingToClose)

def constrain (c : Context) (resourceClass : String) (clauses : List AllocationClause) :
    Except Refusal Context :=
  match c.scopes with
  | s :: rest =>
      if s.constraining then do
        let a ← Allocation.ofClauses resourceClass clauses
        let s ← (s.constrain c.model a).mapError .structural
        return { c with scopes := s :: rest }
      else .error (.structural .allocationNeedsConstraint)
  | [] => .error (.structural .allocationNeedsConstraint)

/-!
# Preparators and streams
-/

def addStreamPreparator (c : Context) (p : StreamPreparator) :
    Except Refusal Context := do
  let p ← p.canonical c.model
  return { c with streamPreparators := c.streamPreparators.register p }

def addRegisterPreparator (c : Context) (p : RegisterPreparator) :
    Except Refusal Context := do
  let p ← p.canonical c.model
  return { c with registerPreparators := c.registerPreparators.register p }

def access (c : Context) (stream : StreamId) (part : StreamPart) : Context :=
  c.modifyTop fun s => s.reserve.push (.access ⟨stream, part, s.nextId⟩)

def bindStream (c : Context) (label : String) (data index : Primitive) (length : Nat) :
    Except Refusal (StreamId × Context) := do
  let (stream, streams) ← c.streams.bind c.streamPreparators label data index length
  return (stream.id, { c with streams }.access stream.id .init)

def accessStream (c : Context) (label : String) (part : StreamPart) :
    Except Refusal Context := do
  let stream ← (c.streams.find label).mapError .structural
  return c.access stream.id part

/-!
# Data and options
-/

/-- Performs a data operation.  A data label is declared among the labels too,
and is placed only if that succeeds. -/
def performData (c : Context) (operation : Data.Operation) :
    Except Refusal (Option UInt64 × Context) := do
  let labels ←
    match operation with
    | .label name => do
        let address ← c.data.addressHere
        (c.labels.declareAddress name address).mapError .structural
    | _ => pure c.labels
  let (address, data) ← c.data.perform operation
  return (address, { c with labels, data })

def setOption (c : Context) (name : String) (value : Setting) :
    Except Refusal Context := do
  let options ← (c.options.setNamed name value).mapError .option
  return { c with options }

end Context
end Stimulus
