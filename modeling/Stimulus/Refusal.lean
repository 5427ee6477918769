import Stimulus.Pattern.Hole
import Stimulus.Primitive.Basic
import Stimulus.Request.OptionName
import Stimulus.Text
import Stimulus.Tree.BlockId
import Stimulus.Tree.Phase

/-!
# Refusals

## Causes

Why a call on a template under construction is refused: it would break the
structure of the template, an argument is unsuitable, or an option cannot be
set.

## Wording

Every cause has one wording, given by `message`.
-/

namespace Stimulus

/-!
# Faults of structure
-/

inductive SituationHolder where
  | call (call : Primitive)
  | callsOf (id : BlockId)
  | block (id : BlockId)
deriving DecidableEq

def SituationHolder.text : SituationHolder → String
  | call c => "call '" ++ c.text ++ "'"
  | callsOf id => "calls of block " ++ id.text
  | block id => "block " ++ id.text

inductive DeclarationKind where
  | type
  | space
  | string
deriving DecidableEq

def DeclarationKind.text : DeclarationKind → String
  | type => "type"
  | space => "space"
  | string => "string"

inductive StructureFault where
  | nothingToClose
  | phaseAlreadyPast (phase current : Phase)
  | blocksLeftOpen (depth : Nat)
  | constraintNeedsSequence
  | allocationNeedsConstraint
  | constraintLeftOpen
  | classConstrainedTwice (resourceClass : String)
  | retainedAndExcluded (resourceClass : String) (resource : Primitive)
  | situationAlreadyAttached (holder : SituationHolder)
  | situationNeedsBlock
  | notInModel (name : String)
  | labelDeclaredTwice (name : String) (scope : BlockId)
  | labelNeverDeclared (name : String)
  | labelAmbiguous (name : String) (candidates : Nat)
  | labelWithoutAddress (name : String)
  | placeholderUncovered (call : Primitive) (placeholder : Placeholder)
  | placeholderRepeated (placeholder : Placeholder)
  | noStreamPreparator (key : StreamKey)
  | noRegisterPreparator (key : RegisterKey)
  | noStream (label : String)
  | streamLabelTaken (label : String)
  | streamHoleUnused (key : StreamKey) (hole : StreamHole)
  | registerNeedUnused (key : RegisterKey) (need : RegisterNeed)
  | dataNotConfigured
  | dataConfiguredTwice
  | dataNeedsSection
  | sectionOpenedTwice
  | noSectionToClose
  | sectionLeftOpen
  | aliasDeclaredTwice (name : String)
  | aliasNeverDeclared (name : String)
  | aliasOfOtherKind (name : String) (expected : DeclarationKind)
  | originBehindCursor (cursor origin : UInt64)
deriving DecidableEq

def StructureFault.message : StructureFault → String
  | nothingToClose => "end of block without a matching begin"
  | phaseAlreadyPast phase current =>
      "phase '" ++ phase.name ++ "' cannot start after '" ++ current.name ++ "'"
  | blocksLeftOpen depth =>
      toString depth ++ " block(s) left open at the end of the phase"
  | constraintNeedsSequence =>
      "constraint scope must be opened directly inside a sequence"
  | allocationNeedsConstraint =>
      "allocation is only valid inside a constraint scope"
  | constraintLeftOpen =>
      "constraint scope left open when the sequence closed"
  | classConstrainedTwice resourceClass =>
      "allocation for resource class '" ++ resourceClass ++
        "' declared twice in one sequence"
  | retainedAndExcluded resourceClass resource =>
      "allocation for '" ++ resourceClass ++
        "' both retains and excludes resource '" ++ resource.text ++ "'"
  | situationAlreadyAttached holder =>
      "a situation is already attached to " ++ holder.text
  | situationNeedsBlock => "block situation requires an open block"
  | notInModel name => "'" ++ name ++ "' is not defined by the model"
  | labelDeclaredTwice name scope =>
      "label '" ++ name ++ "' declared twice in " ++ scope.text
  | labelNeverDeclared name => "label '" ++ name ++ "' is never declared"
  | labelAmbiguous name candidates =>
      "label '" ++ name ++ "' matches " ++ toString candidates ++
        " equally near declarations"
  | labelWithoutAddress name =>
      "label '" ++ name ++ "' does not denote a data address"
  | placeholderUncovered call placeholder =>
      "placeholder " ++ placeholder.text ++ " in '" ++ call.text ++
        "' is covered by no situation, allocator, or default data"
  | placeholderRepeated placeholder =>
      "placeholder " ++ placeholder.text ++
        " is used at more than one argument position"
  | noStreamPreparator key =>
      "no stream preparator registered for " ++ key.text
  | noRegisterPreparator key =>
      "no stream preparator registered for " ++ key.text
  | noStream label => "no stream bound to label '" ++ label ++ "'"
  | streamLabelTaken label =>
      "a stream is already bound to label '" ++ label ++ "'"
  | streamHoleUnused key hole =>
      "stream preparator " ++ key.text ++ " never uses the " ++ hole.name ++
        " role in init"
  | registerNeedUnused key need =>
      "stream preparator " ++ key.text ++ " never uses the " ++ need.name ++
        " role in init"
  | dataNotConfigured => "data configuration is not defined"
  | dataConfiguredTwice => "data configuration is already defined"
  | dataNeedsSection => "data declared while no data section is open"
  | sectionOpenedTwice => "a data section is already open"
  | noSectionToClose => "no data section is open"
  | sectionLeftOpen => "data section left open at the end of the phase"
  | aliasDeclaredTwice name =>
      "data alias '" ++ name ++ "' defined more than once"
  | aliasNeverDeclared name => "data alias '" ++ name ++ "' is not defined"
  | aliasOfOtherKind name expected =>
      "data alias '" ++ name ++ "' does not name a " ++ expected.text ++
        " declaration"
  | originBehindCursor cursor origin =>
      "origin " ++ Text.hex origin.toNat ++ " lies behind the section cursor " ++
        Text.hex cursor.toNat

/-!
# Faults of arguments
-/

inductive ModeUse where
  | retain
  | exclude
  | streamData
  | streamIndex
  | preparatorTarget
deriving DecidableEq

def ModeUse.text : ModeUse → String
  | retain => "retain"
  | exclude => "exclude"
  | streamData => "stream data"
  | streamIndex => "stream index"
  | preparatorTarget => "preparator target"

inductive Quantity where
  | addressableUnit
  | typeWidth
  | valueList
  | spaceLength
  | stringList
  | streamLength
deriving DecidableEq

def Quantity.text : Quantity → String
  | addressableUnit => "addressable unit"
  | typeWidth => "type width"
  | valueList => "value list"
  | spaceLength => "space length"
  | stringList => "string list"
  | streamLength => "stream length"

inductive Vocabulary where
  | numberType
  | accessKind
  | lastUse
deriving DecidableEq

def Vocabulary.text : Vocabulary → String
  | numberType => "data type"
  | accessKind => "access intent"
  | lastUse => "prior state"

inductive ArgumentFault where
  | boundsReversed (min max : Int64)
  | noValues
  | noRanges
  | noBias
  | arity (name : String) (expected got : Nat)
  | notAMode (use : ModeUse) (got : Primitive)
  | doesNotFit (value : Int) (bits : Nat) (signed : Bool)
  | alignmentZero
  | notPositive (quantity : Quantity)
  | widthNotWholeUnits (bits unit : Nat)
  | unknownWord (vocabulary : Vocabulary) (word : String)
  | sliceOutsideValue (low high : Nat)
deriving DecidableEq

def ArgumentFault.message : ArgumentFault → String
  | boundsReversed min max =>
      "range upper bound " ++ toString max.toInt ++ " precedes lower bound " ++
        toString min.toInt
  | noValues => "value set must not be empty"
  | noRanges => "distribution needs at least one range"
  | noBias => "distribution biases sum to zero"
  | arity name expected got =>
      "'" ++ name ++ "' takes " ++ toString expected ++ " argument(s), got " ++
        toString got
  | notAMode use got =>
      use.text ++ " expects an addressing mode, got " ++ got.text
  | doesNotFit value bits signed =>
      "value " ++ toString value ++ " does not fit a " ++ toString bits ++ "-bit " ++
        (if signed then "signed" else "unsigned") ++ " type"
  | alignmentZero => "alignment must be positive"
  | notPositive quantity => quantity.text ++ " must be positive"
  | widthNotWholeUnits bits unit =>
      "type width " ++ toString bits ++ " is not a multiple of the " ++
        toString unit ++ "-bit addressable unit"
  | unknownWord vocabulary word =>
      "unknown " ++ vocabulary.text ++ " '" ++ word ++ "'"
  | sliceOutsideValue low high =>
      "bit slice [" ++ toString low ++ "..=" ++ toString high ++
        "] is not within a 64-bit value"

/-!
# Faults of options
-/

inductive OptionFault where
  | unknown (name : String)
  | settingOfOtherKind (option : OptionName)
deriving DecidableEq

def OptionFault.message : OptionFault → String
  | unknown name => "unknown option '" ++ name ++ "'"
  | settingOfOtherKind option =>
      "option '" ++ option.text ++ "' expects a " ++ option.kind.text ++ " value"

/-!
# All faults
-/

inductive Refusal where
  | structural (cause : StructureFault)
  | argument (cause : ArgumentFault)
  | option (cause : OptionFault)
deriving DecidableEq

namespace Refusal

/-- The wording of the cause alone. -/
def cause : Refusal → String
  | structural e => e.message
  | argument e => e.message
  | option e => e.message

def message : Refusal → String
  | structural e => "structural error: " ++ e.message
  | argument e => "argument type error: " ++ e.message
  | option e => "option error: " ++ e.message

end Refusal
end Stimulus
