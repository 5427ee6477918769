import Stimulus.Text

/-!
# Option names

## The options of a template

The options form a fixed list.  Each has a canonical name, by any spelling of
which it can be set, and accepts either flags or integers.
-/

namespace Stimulus

inductive OptionKind where
  | flag
  | integer
deriving DecidableEq

def OptionKind.text : OptionKind → String
  | flag => "flag"
  | integer => "integer"

inductive OptionName where
  | defaultTestData
  | randomSeed
  | branchExecLimit
  | programLengthLimit
  | traceLengthLimit
  | commentsEnabled
deriving DecidableEq

namespace OptionName

def all : List OptionName :=
  [defaultTestData, randomSeed, branchExecLimit, programLengthLimit,
    traceLengthLimit, commentsEnabled]

def text : OptionName → String
  | defaultTestData => "default-test-data"
  | randomSeed => "random-seed"
  | branchExecLimit => "branch-exec-limit"
  | programLengthLimit => "program-length-limit"
  | traceLengthLimit => "trace-length-limit"
  | commentsEnabled => "comments-enabled"

def kind : OptionName → OptionKind
  | defaultTestData => .flag
  | commentsEnabled => .flag
  | _ => .integer

/-- The option whose canonical name has the same key as `name`. -/
def ofName? (name : String) : Option OptionName :=
  all.find? fun option => Key.ofName option.text = Key.ofName name

end OptionName
end Stimulus
