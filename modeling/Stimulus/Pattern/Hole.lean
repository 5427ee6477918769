import Stimulus.Text

/-!
# Holes of preparators

## What holes stand for

A stream preparator names the data register, the index register and the start
label of a stream that is bound later.  A register preparator names its target
and parts of the value that is loaded into it.
-/

namespace Stimulus

inductive StreamHole where
  | data
  | index
  | startLabel
deriving DecidableEq

def StreamHole.name : StreamHole → String
  | data => "data_source"
  | index => "index_source"
  | startLabel => "start_label"

/-- What a stream preparator is registered under: the keys of the modes of its
data and index registers. -/
structure StreamKey where
  data : Key
  index : Key
deriving DecidableEq

namespace StreamKey

def ofNames (data index : String) : StreamKey :=
  ⟨Key.ofName data, Key.ofName index⟩

def text (k : StreamKey) : String :=
  "(data_source=" ++ k.data.text ++ ", index_source=" ++ k.index.text ++ ")"

end StreamKey

inductive RegisterNeed where
  | target
  | value
deriving DecidableEq

def RegisterNeed.name : RegisterNeed → String
  | target => "target"
  | value => "value"

/-- What a register preparator is asked for by: a target mode, and possibly a
named variant. -/
structure RegisterKey where
  target : String
  variant : Option String
deriving DecidableEq

def RegisterKey.text (k : RegisterKey) : String :=
  match k.variant with
  | some variant => "(target=" ++ k.target ++ ", variant=" ++ variant ++ ")"
  | none => "(target=" ++ k.target ++ ")"

end Stimulus
