import Stimulus.Refusal

/-!
# Template options

## Values of the options

Every option always has a value of its kind.  Only the default test data option
changes what is built; the others travel with the template to the engine.

## Comment tokens

The comment tokens of the target assembler are used when comments are written.
-/

namespace Stimulus

inductive Setting where
  | flag (value : Bool)
  | int (value : Int64)
deriving DecidableEq

def Setting.text : Setting → String
  | flag value => toString value
  | int value => toString value.toInt

structure Options where
  defaultTestData : Bool := false
  randomSeed : Int64 := 0
  branchExecLimit : Int64 := 100
  programLengthLimit : Int64 := 1000
  traceLengthLimit : Int64 := 1000
  commentsEnabled : Bool := false
deriving DecidableEq

namespace Options

def get (o : Options) : OptionName → Setting
  | .defaultTestData => .flag o.defaultTestData
  | .randomSeed => .int o.randomSeed
  | .branchExecLimit => .int o.branchExecLimit
  | .programLengthLimit => .int o.programLengthLimit
  | .traceLengthLimit => .int o.traceLengthLimit
  | .commentsEnabled => .flag o.commentsEnabled

/-- Sets an option; the value has to be of the option's kind. -/
def set (o : Options) : OptionName → Setting → Except OptionFault Options
  | .defaultTestData, .flag value => .ok { o with defaultTestData := value }
  | .randomSeed, .int value => .ok { o with randomSeed := value }
  | .branchExecLimit, .int value => .ok { o with branchExecLimit := value }
  | .programLengthLimit, .int value => .ok { o with programLengthLimit := value }
  | .traceLengthLimit, .int value => .ok { o with traceLengthLimit := value }
  | .commentsEnabled, .flag value => .ok { o with commentsEnabled := value }
  | option, _ => .error (.settingOfOtherKind option)

def lookup (name : String) : Except OptionFault OptionName :=
  match OptionName.ofName? name with
  | some option => .ok option
  | none => .error (.unknown name)

def setNamed (o : Options) (name : String) (value : Setting) :
    Except OptionFault Options := do
  let option ← lookup name
  o.set option value

def getNamed (o : Options) (name : String) : Except OptionFault Setting := do
  let option ← lookup name
  return o.get option

def setAll (o : Options) : List (String × Setting) → Except OptionFault Options
  | [] => .ok o
  | (name, value) :: rest => do
      let o ← o.setNamed name value
      o.setAll rest

def entries (o : Options) : List (OptionName × Setting) :=
  OptionName.all.map fun option => (option, o.get option)

end Options

structure CommentTokens where
  line : String := "// "
  blockStart : String := "/*"
  blockStop : String := "*/"
deriving DecidableEq

end Stimulus
