import Stimulus.Proofs.BoundStreams
import Stimulus.Proofs.BuildLog
import Stimulus.Proofs.Sealing

/-!
# Order of a replay

## Open trees

The marks of an unfinished tree are those of the phase root and of the open scopes,
the outermost first; the blocks that are open have begun and not ended.  A command
adds its marks at the end.

## Replays

The replay of a sealed template is its log, with the beginning and the end of the
root of each phase around the marks of that phase.
-/

namespace Stimulus

/-!
# Marks of scopes
-/

namespace Scope

def marks (calls : StreamAccess → List Primitive) (s : Scope) : List Mark :=
  Node.marksOf calls s.head.id s.children

theorem marks_push (calls : StreamAccess → List Primitive) (s : Scope) (n : Node StreamAccess) :
    (s.push n).marks calls = s.marks calls ++ n.marks calls s.head.id := by
  rw [marks, push, Node.marksOf_append, Node.marksOf_singleton]
  rfl

def openMarks (calls : StreamAccess → List Primitive) : List Scope → List Mark
  | [] => []
  | s :: rest => openMarks calls rest ++ .blockStart s.head.id s.head.kind :: s.marks calls

end Scope

namespace Context

variable {calls : StreamAccess → List Primitive} {start : String → UInt64}
variable {c next : Context} {command : Command} {outcome : Except Refusal Reply}

def marksIn (calls : StreamAccess → List Primitive) (c : Context) (p : Phase) : List Mark :=
  (c.roots.get p).marks calls ++
    if c.phase = p then Scope.openMarks calls c.scopes else []

def openIds (c : Context) : List BlockId :=
  c.scopes.map fun s => s.head.id

/-- `next` has the marks of `c`, followed in its phase by `added`. -/
def Adds (calls : StreamAccess → List Primitive) (c next : Context) (added : List Mark) : Prop :=
  ∀ p, next.marksIn calls p = c.marksIn calls p ++ if c.phase = p then added else []

theorem Adds.nothing (hroots : next.roots = c.roots) (hphase : next.phase = c.phase)
    (hscopes : next.scopes = c.scopes) : Adds calls c next [] := by
  intro p
  simp [marksIn, hroots, hphase, hscopes]

theorem Adds.modifyTop {f : Scope → Scope} {added : List Mark}
    (hid : (f c.top).head.id = c.top.head.id) (hkind : (f c.top).head.kind = c.top.head.kind)
    (hmarks : (f c.top).marks calls = c.top.marks calls ++ added) :
    Adds calls c (c.modifyTop f) added := by
  intro p
  cases hscopes : c.scopes with
  | nil =>
      rw [top_nil hscopes] at hmarks
      rw [modifyTop_nil hscopes]
      simp only [marksIn, PhaseTable.get_modify, hscopes, Scope.openMarks]
      by_cases hp : c.phase = p
      · subst hp
        simp [hmarks]
      · simp [hp]
  | cons s rest =>
      rw [top_cons hscopes] at hid hkind hmarks
      rw [modifyTop_cons hscopes]
      simp only [marksIn, hscopes, Scope.openMarks]
      by_cases hp : c.phase = p
      · simp [hp, hid, hkind, hmarks]
      · simp [hp]

theorem Adds.push (n : Node StreamAccess) :
    Adds calls c (c.push n) (n.marks calls c.top.head.id) :=
  Adds.modifyTop rfl rfl (Scope.marks_push calls c.top n)

theorem Adds.replace {s s' : Scope} {rest : List Scope} (hscopes : c.scopes = s :: rest)
    (hid : s'.head.id = s.head.id) (hkind : s'.head.kind = s.head.kind)
    (hchildren : s'.children = s.children) :
    Adds calls c { c with scopes := s' :: rest } [] := by
  intro p
  simp [marksIn, hscopes, Scope.openMarks, Scope.marks, hid, hkind, hchildren]

theorem Adds.access (stream : StreamId) (part : StreamPart) :
    Adds calls c (c.access stream part)
      (Mark.expansion c.top.nextId (calls ⟨stream, part, c.top.nextId⟩)) :=
  Adds.modifyTop rfl rfl (Scope.marks_push calls c.top.reserve _)

theorem Adds.close {s : Scope} {rest : List Scope} (hscopes : c.scopes = s :: rest) :
    Adds calls c ({ c with scopes := rest }.push s.block.toNode) [.blockStop s.head.id] := by
  intro p
  have hpush : Adds calls { c with scopes := rest } ({ c with scopes := rest }.push s.block.toNode)
      (s.block.toNode.marks calls ({ c with scopes := rest } : Context).top.head.id) :=
    Adds.push s.block.toNode
  rw [hpush p]
  by_cases hp : c.phase = p
  · simp [marksIn, hscopes, hp, Scope.openMarks, Block.toNode, Scope.block, Node.marks,
      Mark.within, Scope.marks]
  · simp [marksIn, hp]

/-!
# Steps
-/

theorem Rooted.top_id (h : Rooted c) :
    c.openIds.head?.getD (BlockId.root.child c.phase.index) = c.top.head.id := by
  unfold openIds
  cases hscopes : c.scopes with
  | nil =>
      rw [top_nil hscopes, h.roots]
      rfl
  | cons s rest =>
      rw [top_cons hscopes]
      rfl

def Keeps (c : Context) (command : Command) (outcome : Except Refusal Reply) : Prop :=
  ∀ cause, command = .closeBlock → outcome = .error cause → c.scopes = []

def CallsStreams (start : String → UInt64) (calls : StreamAccess → List Primitive)
    (c : Context) : Prop :=
  ∀ stream ∈ c.streams.bound, ∀ part block,
    calls ⟨stream.id, part, block⟩ = stream.calls start part

theorem CallsStreams.before {commands : List Command}
    (h : CallsStreams start calls (c.run commands)) : CallsStreams start calls c := by
  intro stream hstream
  exact h stream (bound_of_run hstream commands)

theorem callsStreams_callsOf (h : c.streams.Coherent) :
    CallsStreams c.labels.startOf c.callsOf c := by
  intro stream hstream part block
  have hget := h.get?_eq_some.mpr ⟨hstream, rfl⟩
  simp only [callsOf, Streams.calls, hget]

/-- An accepted command adds what it causes, and a refused one adds nothing. -/
theorem adds_of_step (hrooted : Rooted c) (hcalls : CallsStreams start calls next)
    (hstep : Step c command outcome next) (hkeeps : c.Keeps command outcome) :
    ∃ added, caused? start c.openIds c next command outcome = some added ∧
      Adds calls c next added := by
  cases hstep with
  | refused => exact ⟨[], caused?_error _ _, Adds.nothing rfl rfl rfl⟩
  | dropped hscopes =>
      rw [hkeeps _ rfl rfl] at hscopes
      cases hscopes
  | answered hcommand => exact ⟨[], caused?_answered hcommand _, Adds.nothing rfl rfl rfl⟩
  | advanced _ hscopes _ =>
      refine ⟨[], rfl, ?_⟩
      intro p
      simp [marksIn, hscopes, Scope.openMarks]
  | @opened kind requested =>
      have hreserved : Adds calls c (c.modifyTop Scope.reserve) [] :=
        Adds.modifyTop rfl rfl (List.append_nil _).symm
      refine ⟨_, rfl, ?_⟩
      intro p
      have hp := hreserved p
      simp only [marksIn, modifyTop_phase, ite_self, List.append_nil] at hp ⊢
      simp only [Scope.openMarks]
      by_cases hphase : c.phase = p
      · simp only [hphase, if_true, ← List.append_assoc] at hp ⊢
        rw [hp]
        rfl
      · simp only [hphase, if_false, List.append_nil] at hp ⊢
        exact hp
  | closed hscopes _ _ =>
      refine ⟨_, ?_, Adds.close hscopes⟩
      simp [caused?, openIds, hscopes]
  | covered hscopes _ => exact ⟨[], rfl, Adds.replace hscopes rfl rfl rfl⟩
  | unknownIssued => exact ⟨[], rfl, Adds.nothing rfl rfl rfl⟩
  | lazyIssued => exact ⟨[], rfl, Adds.nothing rfl rfl rfl⟩
  | called hentry =>
      refine ⟨_, ?_, Adds.push _⟩
      simp only [caused?, (Model.resolve_eq_ok.mp hentry).left]
      rfl
  | @attached situation call front hchildren _ =>
      refine ⟨[], rfl, Adds.modifyTop rfl rfl ?_⟩
      simp [Scope.marks, hchildren, Node.marksOf_append, Node.marksOf, Node.marks]
  | @labelled name labels _ =>
      refine ⟨_, rfl, ?_⟩
      rw [hrooted.top_id]
      exact Adds.push (c := { c with labels }) (.label name)
  | @placed command node hleaf =>
      refine ⟨_, ?_, Adds.push node⟩
      cases command <;> cases hleaf <;> rfl
  | constraintOpened hscopes _ _ => exact ⟨[], rfl, Adds.replace hscopes rfl rfl rfl⟩
  | constraintClosed hscopes _ => exact ⟨[], rfl, Adds.replace hscopes rfl rfl rfl⟩
  | constrained hscopes _ _ hscope =>
      rcases Scope.constrain_eq_ok.mp hscope with ⟨_, _, rfl⟩
      exact ⟨[], rfl, Adds.replace hscopes rfl rfl rfl⟩
  | streamPrepared _ => exact ⟨[], rfl, Adds.nothing rfl rfl rfl⟩
  | registerPrepared _ => exact ⟨[], rfl, Adds.nothing rfl rfl rfl⟩
  | @streamBound label data index length stream streams hbind =>
      rcases Streams.bind_eq_ok.mp hbind with ⟨_, _, _, _, _, _, _, hstreams⟩
      have hmem : stream ∈ ({ c with streams }.access stream.id .init).streams.bound := by
        simp [access, hstreams]
      refine ⟨_, ?_, Adds.access (c := { c with streams }) stream.id .init⟩
      rw [hcalls stream hmem]
      simp [caused?, accessMarks?, access, Streams.find?_bind hbind]
      rfl
  | @streamAccessed command label part stream hcommand hstream =>
      have hmem : stream ∈ (c.access stream.id part).streams.bound := by
        simpa [access] using List.mem_of_find?_eq_some hstream
      refine ⟨_, ?_, Adds.access stream.id part⟩
      rw [hcalls stream hmem]
      cases command with
      | readStream name =>
          cases hcommand
          simp [caused?, accessMarks?, access, hstream]
      | writeStream name =>
          cases hcommand
          simp [caused?, accessMarks?, access, hstream]
      | _ => cases hcommand
  | dataPerformed _ _ => exact ⟨[], rfl, Adds.nothing rfl rfl rfl⟩
  | dataLabelled _ _ => exact ⟨[], rfl, Adds.nothing rfl rfl rfl⟩
  | optionSet _ => exact ⟨[], rfl, Adds.nothing rfl rfl rfl⟩

/-!
# Open blocks
-/

theorem openIds_modifyTop {f : Scope → Scope} (hid : (f c.top).head.id = c.top.head.id) :
    (c.modifyTop f).openIds = c.openIds := by
  unfold openIds
  cases hscopes : c.scopes with
  | nil =>
      rw [modifyTop_nil hscopes, hscopes]
  | cons s rest =>
      rw [top_cons hscopes] at hid
      rw [modifyTop_cons hscopes]
      simp [hid]

theorem openIds_replace {s s' : Scope} {rest : List Scope} (hscopes : c.scopes = s :: rest)
    (hid : s'.head.id = s.head.id) :
    ({ c with scopes := s' :: rest } : Context).openIds = c.openIds := by
  simp [openIds, hscopes, hid]

theorem openIds_of_step (hstep : Step c command outcome next)
    (hkeeps : c.Keeps command outcome) :
    next.openIds = command.openAfter c.openIds outcome := by
  cases hstep with
  | refused =>
      cases command <;> rfl
  | dropped hscopes =>
      rw [hkeeps _ rfl rfl] at hscopes
      cases hscopes
  | answered hcommand =>
      cases command with
      | advanceTo phase => rfl
      | value kind name args => rfl
      | random min max => rfl
      | attach situation => rfl
      | _ => cases hcommand
  | advanced _ _ _ => rfl
  | opened =>
      have hreserved : (c.modifyTop Scope.reserve).openIds = c.openIds := openIds_modifyTop rfl
      simp only [openIds, List.map_cons] at hreserved ⊢
      rw [hreserved]
      rfl
  | @closed s rest hscopes _ _ =>
      have hpushed : ({ c with scopes := rest }.push s.block.toNode).openIds =
          ({ c with scopes := rest } : Context).openIds :=
        openIds_modifyTop rfl
      rw [hpushed]
      simp [openIds, hscopes, Command.openAfter]
  | covered hscopes _ => exact openIds_replace hscopes rfl
  | unknownIssued => rfl
  | lazyIssued => rfl
  | called _ => exact openIds_modifyTop rfl
  | attached _ _ => exact openIds_modifyTop rfl
  | @labelled name labels _ => exact openIds_modifyTop (c := { c with labels }) rfl
  | @placed command node hleaf =>
      have hpush : (c.push node).openIds = c.openIds := openIds_modifyTop rfl
      rw [hpush]
      cases command with
      | openBlock kind requested => cases hleaf
      | closeBlock => cases hleaf
      | _ => rfl
  | constraintOpened hscopes _ _ => exact openIds_replace hscopes rfl
  | constraintClosed hscopes _ => exact openIds_replace hscopes rfl
  | constrained hscopes _ _ hscope =>
      rcases Scope.constrain_eq_ok.mp hscope with ⟨_, _, rfl⟩
      exact openIds_replace hscopes rfl
  | streamPrepared _ => rfl
  | registerPrepared _ => rfl
  | @streamBound label data index length stream streams _ =>
      exact openIds_modifyTop (c := { c with streams }) rfl
  | @streamAccessed command label part stream hcommand _ =>
      have haccess : (c.access stream.id part).openIds = c.openIds := openIds_modifyTop rfl
      rw [haccess]
      cases command with
      | openBlock kind requested => cases hcommand
      | closeBlock => cases hcommand
      | _ => rfl
  | dataPerformed _ _ => rfl
  | dataLabelled _ _ => rfl
  | optionSet _ => rfl

/-!
# Runs
-/

def dropsBlock (c : Context) : Command → Bool
  | .closeBlock => c.depth != 0 && (c.perform .closeBlock).1.toOption.isNone
  | _ => false

/-- No end of a block is refused while a block is open. -/
def keepsBlocks (c : Context) : List Command → Bool
  | [] => true
  | command :: rest => !c.dropsBlock command && (c.perform command).2.keepsBlocks rest

theorem keeps_of_dropsBlock (h : c.dropsBlock command = false) :
    c.Keeps command (c.perform command).1 := by
  intro cause hcommand hcause
  rw [hcommand] at h hcause
  simpa [dropsBlock, hcause, Except.toOption, depth] using h

/-- A run adds the marks of its log, those of each phase in the tree of that phase. -/
theorem marksIn_run (hrooted : Rooted c) {commands : List Command}
    (hcalls : CallsStreams start calls (c.run commands))
    (hkeeps : c.keepsBlocks commands = true) :
    ∃ log, c.log start c.openIds commands = some log ∧
      ∀ p, (c.run commands).marksIn calls p = c.marksIn calls p ++ p.marksOf log := by
  induction commands generalizing c with
  | nil =>
      exact ⟨[], rfl, fun p => (List.append_nil _).symm⟩
  | cons command rest ih =>
      simp only [keepsBlocks, Bool.and_eq_true, Bool.not_eq_true'] at hkeeps
      have hstep := c.perform_step command
      have hkept := keeps_of_dropsBlock hkeeps.left
      rw [run_cons] at hcalls
      rcases adds_of_step hrooted hcalls.before hstep hkept with ⟨added, hadded, hadds⟩
      rcases ih (hrooted.step hstep) hcalls hkeeps.right with ⟨later, hlater, hrun⟩
      rw [openIds_of_step hstep hkept] at hlater
      refine ⟨_, log_cons.mpr ⟨added, later, hadded, hlater, rfl⟩, ?_⟩
      intro p
      rw [run_cons, hrun p, hadds p, Phase.marksOf_append, List.append_assoc]
      by_cases hp : c.phase = p
      · rw [if_pos hp, ← hp, Phase.marksOf_same]
      · rw [if_neg hp, Phase.marksOf_other hp]

theorem marks_unrolled (hrooted : Rooted c) (hscopes : c.scopes = []) (p : Phase) :
    Event.marks (c.unrolled.get p).events =
      Mark.within (BlockId.root.child p.index) .phaseRoot (c.marksIn c.callsOf p) := by
  have hmarks : c.marksIn c.callsOf p = (c.roots.get p).marks c.callsOf := by
    simp [marksIn, hscopes, Scope.openMarks]
  rw [unrolled, PhaseTable.get_map, built, PhaseTable.get_map, Block.marks_events, hmarks]
  simp only [Scope.block, Scope.marks, hrooted.roots p]
  rfl

end Context

/-!
# Replays
-/

/-- The replay of `t` follows `log`: around the marks of a phase stand the beginning and
the end of its root, and without them the marks are those of the log in its order. -/
structure Replays (t : SealedTemplate) (log : List (Phase × Mark)) : Prop where
  framed : Event.marks t.replay = Phase.all.flatMap fun p =>
    Mark.within (BlockId.root.child p.index) .phaseRoot (p.marksOf log)
  ordered : (Phase.all.flatMap fun p => p.marksOf log) = log.map Prod.snd

section

variable {name : String} {model : Model} {options : Options} {comments : CommentTokens}
variable {commands : List Command} {t : SealedTemplate}

/-- A build that seals and loses no block is replayed in the order of its commands. -/
theorem replays_of_seal
    (hkeeps : (Context.start name model options comments).keepsBlocks commands = true)
    (h : ((Context.start name model options comments).run commands).seal = .ok t) :
    ∃ log, (Context.start name model options comments).log t.labels.startOf [] commands =
        some log ∧ Replays t log := by
  have hrooted := Context.Rooted.start name model options comments
  have hscopes := (Context.seal_eq_ok.mp h).left
  rcases Context.unrolled_of_seal h with ⟨_, hphases, hlabels, _⟩
  have hcalls := Context.callsStreams_callsOf (Context.run_coherent
    (c := Context.start name model options comments) .empty commands)
  rcases Context.marksIn_run hrooted hcalls hkeeps with ⟨log, hlog, hrun⟩
  rw [hlabels]
  refine ⟨log, hlog, ?_, Phase.flatMap_marksOf (Context.log_ordered hlog)⟩
  rw [SealedTemplate.marks_replay, hphases, PhaseTable.toList_eq, List.flatMap_map]
  congr 1
  funext p
  rw [Context.marks_unrolled (Context.run_rooted hrooted commands) hscopes p, hrun p]
  cases p <;> rfl

end

theorem replays_of_seal_sample :
    SampleBuild.start.keepsBlocks SampleBuild.commands = true ∧
      ∃ t log, (SampleBuild.start.run SampleBuild.commands).seal = .ok t ∧
        SampleBuild.start.log t.labels.startOf [] SampleBuild.commands = some log ∧
        Replays t log := by
  have hkeeps : SampleBuild.start.keepsBlocks SampleBuild.commands = true := by
    decide
  rcases SampleBuild.seals with ⟨t, ht⟩
  rcases replays_of_seal hkeeps ht with ⟨log, hlog, hreplays⟩
  exact ⟨hkeeps, t, log, ht, hlog, hreplays⟩

end Stimulus
