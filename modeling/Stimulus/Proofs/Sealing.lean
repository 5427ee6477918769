import Stimulus.Proofs.Checked
import Stimulus.Sealed.Basic

/-!
# Sealing

## What a sealed template is made of

A build is sealed in steps: everything is closed, the stream accesses are
expanded, and the placeholders are bound.  The other parts of the template are
those of the context.
-/

namespace Stimulus

open Checked

namespace Context

def sources (c : Context) : Sources :=
  ⟨c.options, c.labels, c.requests⟩

def sealedWith (c : Context) (phases : PhaseTable (Block Empty)) (bindings : Bindings) :
    SealedTemplate where
  name := c.name
  options := c.options
  comments := c.comments
  phases := phases
  labels := c.labels
  streamPreparators := c.streamPreparators
  registerPreparators := c.registerPreparators
  streams := c.streams
  data := c.data.layout
  bindings := bindings

def expandRoots (c : Context) : Except Refusal (PhaseTable (Block Empty)) :=
  c.roots.mapExcept fun root => root.block.expand c.streams c.labels

theorem checkClosed_eq_ok {c : Context} {u : Unit} :
    c.checkClosed = .ok u ↔ c.scopes = [] ∧ c.data.isOpen = false := by
  unfold checkClosed
  by_cases hscopes : c.scopes = []
  · by_cases hopen : c.data.isOpen = true
    · simp [depth, hscopes, hopen]
    · simp [depth, hscopes, hopen]
  · simp [depth, hscopes]

theorem freeze_eq_ok {w : Data.Writer} {layout : Data.Layout} :
    w.freeze = .ok layout ↔ w.isOpen = false ∧ layout = w.layout := by
  unfold Data.Writer.freeze
  by_cases hopen : w.isOpen = true
  · simp [hopen]
  · simp [hopen, eq_comm]

theorem seal_eq_ok {c : Context} {t : SealedTemplate} :
    c.seal = .ok t ↔
      c.scopes = [] ∧ c.data.isOpen = false ∧
        ∃ phases bindings, c.expandRoots = .ok phases ∧
          c.sources.resolve phases.toList = .ok bindings ∧
          t = c.sealedWith phases bindings := by
  unfold Context.seal
  simp only [bind_eq_ok, checkClosed_eq_ok, freeze_eq_ok, mapError_eq_ok, pure_eq_ok]
  constructor
  · intro hparts
    rcases hparts with
      ⟨_, ⟨hscopes, hdata⟩, layout, ⟨_, hlayout⟩, phases, hphases, bindings, hbindings, ht⟩
    rw [hlayout] at ht
    exact ⟨hscopes, hdata, phases, bindings, hphases, hbindings, ht⟩
  · intro hparts
    rcases hparts with ⟨hscopes, hdata, phases, bindings, hphases, hbindings, ht⟩
    exact ⟨(), ⟨hscopes, hdata⟩, c.data.layout, ⟨hdata, rfl⟩, phases, hphases, bindings,
      hbindings, ht⟩

end Context

/-!
# A build that seals

A small build with a stream, an unknown of each kind, a reference and a refused
command.  Laws of sealing are tried on it.
-/

namespace SampleBuild

def model : Model :=
  .ofEntries "sample"
    [⟨.instruction, "add", 2⟩, ⟨.instruction, "la", 2⟩, ⟨.instruction, "lw", 2⟩,
      ⟨.instruction, "j", 1⟩, ⟨.mode, "reg", 1⟩]

def register (index : Nat) : Primitive :=
  ⟨.mode, "reg", [.placeholder (.unknown index)]⟩

def preparator : StreamPreparator where
  key := .ofNames "REG" "reg"
  init := [⟨"LA", [.hole .index, .hole .startLabel]⟩]
  read := [⟨"lw", [.hole .data, .hole .index]⟩]
  write := []

def commands : List Command :=
  [.data (.configure ⟨".data", "M", 8⟩), .data .openSection, .data (.label "table"),
    .data .closeSection, .addStreamPreparator preparator,
    .setOption "Default_Test_Data" (.flag true), .advanceTo .run, .unknown, .unknown,
    .unknown, .lazy "done", .openBlock .sequence {}, .openConstraint, .constrain "REG" [],
    .closeConstraint, .bindStream "table" (register 0) (register 1) 4, .closeBlock,
    .instruction "ADD" [.placeholder (.unknown 2), .concrete 1], .instruction "mul" [],
    .instruction "j" [.placeholder (.lazy 0)], .label "done"]

def start : Context :=
  .start "sample" model {} {}

theorem seals : ∃ t, (start.run commands).seal = .ok t := by
  have hsome : (start.run commands).seal.toOption.isSome = true := by
    decide +kernel
  rcases Option.isSome_iff_exists.mp hsome with ⟨t, ht⟩
  exact ⟨t, toOption_eq_some.mp ht⟩

end SampleBuild
end Stimulus
