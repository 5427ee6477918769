import Stimulus.Request.Distribution
import Stimulus.Table.OrderedMap

/-!
# Situations

## Requests for data

A situation names a way of generating data and gives its parameters.  It is
attached to one call, or to a block for all of its calls.
-/

namespace Stimulus

inductive Parameter where
  | int (value : Int64)
  | flag (value : Bool)
  | word (value : String)
  | distribution (value : Distribution)
deriving DecidableEq

def Parameter.text : Parameter → String
  | int value => toString value.toInt
  | flag value => toString value
  | word value => value
  | distribution value => value.text

structure Situation where
  name : String
  params : OrderedMap String Parameter

namespace Situation

def named (name : String) : Situation :=
  ⟨name, {}⟩

/-- Sets a parameter; a repeated key keeps its place and takes the new value. -/
def param (s : Situation) (key : String) (value : Parameter) : Situation :=
  { s with params := s.params.insert key value }

def ofParams (name : String) (params : List (String × Parameter)) : Situation :=
  ⟨name, .ofList params⟩

def get? (s : Situation) (key : String) : Option Parameter :=
  s.params.get? key

/-- Whether two situations ask for the same; the order of parameters does not count. -/
def same (s t : Situation) : Bool :=
  s.name == t.name && s.params.size == t.params.size &&
    s.params.entries.all fun entry => t.get? entry.1 == some entry.2

def paramText (entry : String × Parameter) : String :=
  entry.1 ++ ": " ++ entry.2.text

def text (s : Situation) : String :=
  if s.params.isEmpty then s.name
  else s.name ++ "(" ++ ", ".intercalate (s.params.entries.map paramText) ++ ")"

end Situation
end Stimulus
