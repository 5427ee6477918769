import Stimulus.Build.Command
import Stimulus.Sealed.Bindings
import Stimulus.Sealed.Expansion

/-!
# Sealed templates

## What the engine receives

A sealed template holds the trees of the three phases with stream accesses
expanded, the data layout, the labels, the preparators and streams, and the
binding of every placeholder.
-/

namespace Stimulus

structure SealedTemplate where
  name : String
  options : Options
  comments : CommentTokens
  phases : PhaseTable (Block Empty)
  labels : Labels
  streamPreparators : StreamRegistry
  registerPreparators : RegisterStore
  streams : Streams
  data : Data.Layout
  bindings : Bindings

/-- Ends a build: everything has to be closed, then stream accesses are expanded,
and then placeholders are bound. -/
def Context.seal (c : Context) : Except Refusal SealedTemplate := do
  c.checkClosed
  let data ← c.data.freeze
  let phases ← c.roots.mapExcept fun root => root.block.expand c.streams c.labels
  let sources : Sources := ⟨c.options, c.labels, c.requests⟩
  let bindings ← (sources.resolve phases.toList).mapError .structural
  return {
    name := c.name
    options := c.options
    comments := c.comments
    phases
    labels := c.labels
    streamPreparators := c.streamPreparators
    registerPreparators := c.registerPreparators
    streams := c.streams
    data
    bindings }

namespace SealedTemplate

def block? (t : SealedTemplate) (id : BlockId) : Option (Block Empty) :=
  (t.phases.toList.flatMap Block.allBlocks).find? fun b => b.head.id == id

end SealedTemplate
end Stimulus
