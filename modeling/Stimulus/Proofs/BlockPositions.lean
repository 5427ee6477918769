import Mathlib.Data.List.Nodup
import Stimulus.Proofs.BlockKinds

/-!
# Positions of blocks

## Blocks of a replay

A replay reports the beginning of every block of the sealed trees, in depth-first
order.

## Identities as positions

In every template that a build seals to, whatever was refused on the way, the identity
of a block is its path in the tree.  So the order of the replay is the order of the
identities, and one block lies in another exactly if the identity of the one extends
that of the other.
-/

namespace Stimulus

/-!
# Blocks of a replay
-/

def Event.started? : Event → Option (Block Empty)
  | .blockStart b => some b
  | _ => none

def SealedTemplate.started (t : SealedTemplate) : List (Block Empty) :=
  t.replay.filterMap Event.started?

mutual

theorem Node.started_events (parent : Block Empty) (inherited : Option Situation) :
    ∀ n : Node Empty, (n.events parent inherited).filterMap Event.started? = n.allBlocks
  | .block head children => by
      have hstart : Event.started? (.blockStart ⟨head, children⟩) = some ⟨head, children⟩ := rfl
      have hstop : [Event.blockStop ⟨head, children⟩].filterMap Event.started? = [] := rfl
      rw [Node.events, Node.allBlocks, List.filterMap_cons_some hstart, List.filterMap_append,
        Node.started_eventsOf ⟨head, children⟩ _ children, hstop, List.append_nil]
  | .access a => a.elim
  | .call _ | .label _ | .output _ | .directive _ => rfl

theorem Node.started_eventsOf (parent : Block Empty) (inherited : Option Situation) :
    ∀ children : List (Node Empty),
      (Node.eventsOf parent inherited children).filterMap Event.started? =
        Node.allBlocksOf children
  | [] => rfl
  | n :: rest => by
      rw [Node.eventsOf, Node.allBlocksOf, List.filterMap_append,
        Node.started_events parent inherited n, Node.started_eventsOf parent inherited rest]

end

theorem SealedTemplate.started_eq (t : SealedTemplate) : t.started = t.blocks := by
  have hdata : (t.data.sections.map Event.dataPlaced).filterMap Event.started? = [] := by
    rw [List.filterMap_map]
    exact List.filterMap_eq_nil_iff.mpr fun _ _ => rfl
  have htrees : (t.phases.toList.flatMap Block.events).filterMap Event.started? = t.blocks := by
    rw [List.filterMap_flatMap, blocks]
    exact List.flatMap_congr fun b _ => Node.started_events b none b.toNode
  rw [started, replay, List.filterMap_cons_none rfl, List.filterMap_append,
    List.filterMap_append, hdata, htrees]
  exact List.append_nil _

/-!
# Enclosure
-/

namespace Block

variable {α : Type} {b d e : Block α}

theorem Indexed.eq_of_id (h : b.Indexed) (hd : d ∈ b.blocks) (he : e ∈ b.blocks)
    (hid : d.head.id = e.head.id) : d = e := by
  have hids : (b.blocks.map fun x => x.head.id).Nodup := by
    rw [List.Nodup, List.pairwise_map]
    apply h.pairwise.imp
    intro x y hpair hsame
    rcases hpair with ⟨i, j, hlt, hx, hy⟩
    rw [hx, hy] at hsame
    exact absurd (BlockId.child_inj.mp hsame) (Nat.ne_of_lt hlt)
  exact List.inj_on_of_nodup_map hids hd he hid

theorem mem_allBlocks_trans (hd : d ∈ b.allBlocks) (he : e ∈ d.allBlocks) :
    e ∈ b.allBlocks := by
  induction b using nesting with
  | step b ih =>
      rcases mem_allBlocks.mp hd with rfl | ⟨x, hx, hdx⟩
      · exact he
      · exact mem_allBlocks.mpr (Or.inr ⟨x, hx, ih x hx hdx⟩)

theorem mem_of_encloses (hindexed : ∀ x ∈ b.allBlocks, x.Indexed) (hd : d ∈ b.allBlocks)
    (he : e ∈ b.allBlocks) (hencloses : d.head.id.encloses e.head.id = true) :
    e ∈ d.allBlocks := by
  induction b using nesting with
  | step b ih =>
      rcases mem_allBlocks.mp hd with rfl | ⟨x, hx, hdx⟩
      · exact he
      · have hself := hindexed b b.self_mem_allBlocks
        have hinner : ∀ x ∈ b.blocks, ∀ x' ∈ x.allBlocks, x'.Indexed := by
          intro x hx x' hx'
          exact hindexed x' (mem_allBlocks.mpr (Or.inr ⟨x, hx, hx'⟩))
        rcases hself.index hx with ⟨i, hi⟩
        have hbelow := BlockId.encloses_trans (encloses_of_mem (hinner x hx) hdx) hencloses
        rw [hi] at hbelow
        rcases mem_allBlocks.mp he with rfl | ⟨y, hy, hey⟩
        · exact absurd rfl (BlockId.ne_of_lt (BlockId.lt_of_encloses_child hbelow))
        · -- `d` and `e` lie below one index, so below one child.
          rcases hself.index hy with ⟨j, hj⟩
          have hother := encloses_of_mem (hinner y hy) hey
          rw [hj] at hother
          have hsame : x = y := by
            apply hself.eq_of_id hx hy
            rw [hi, hj, BlockId.index_unique hbelow hother]
          rw [← hsame] at hey
          exact ih x hx (hinner x hx) hdx hey

end Block

/-!
# Sealed trees
-/

namespace Context

variable {c : Context} {t : SealedTemplate}

theorem phase_of_seal (hrooted : Rooted c) (hindexed : Indexed c.callsOf c)
    (h : c.seal = .ok t) (p : Phase) :
    (t.phases.get p).head = (Scope.phaseRoot p).head ∧
      ∀ e ∈ (t.phases.get p).allBlocks, e.Indexed := by
  rcases unrolled_of_seal h with ⟨_, hphases, _⟩
  have htree : t.phases.get p = (c.roots.get p).unrolled c.callsOf := by
    rw [hphases, unrolled, built, PhaseTable.get_map, PhaseTable.get_map]
    rfl
  have hscope := hindexed.scopes _ (List.mem_append_left _ (PhaseTable.mem_toList.mpr ⟨p, rfl⟩))
  rw [htree]
  exact ⟨hrooted.roots p, hscope.allBlocks⟩

theorem phaseRoots_of_seal (hrooted : Rooted c) (huser : UserBlocks c) (h : c.seal = .ok t)
    (p : Phase) :
    ((t.phases.get p).allBlocks.filter fun b => b.head.kind == .phaseRoot) = [t.phases.get p] := by
  rcases unrolled_of_seal h with ⟨_, hphases, _⟩
  have htree : t.phases.get p = (c.roots.get p).unrolled c.callsOf := by
    rw [hphases, unrolled, built, PhaseTable.get_map, PhaseTable.get_map]
    rfl
  have hblocks := huser.blocks _ (List.mem_append_left _ (PhaseTable.mem_toList.mpr ⟨p, rfl⟩))
  have hself : (t.phases.get p).head.kind = .phaseRoot := by
    rw [htree]
    exact congrArg BlockHead.kind (hrooted.roots p)
  have hothers : ∀ b ∈ Node.allBlocksOf (t.phases.get p).children, b.head.kind ≠ .phaseRoot := by
    rw [htree]
    intro b hb
    rcases Node.openedByUser_unrolledAll _ hblocks.allBlocksOf hb with
      ⟨kind, hkind⟩ | ⟨a, _, hhead⟩
    · rw [hkind]
      simp
    · rw [hhead]
      simp [StreamAccess.head]
  have hnone : (Node.allBlocksOf (t.phases.get p).children).filter
      (fun b => b.head.kind == .phaseRoot) = [] := by
    simpa using hothers
  rw [Block.allBlocks, Block.toNode, Node.allBlocks, List.filter_cons_of_pos, hnone]
  simpa using hself

end Context

/-- The identities of the blocks of a sealed template are their positions. -/
structure BlocksByPosition (t : SealedTemplate) : Prop where
  reported : t.started = t.phases.toList.flatMap Block.allBlocks
  phaseRoots : (t.started.filter fun b => b.head.kind == .phaseRoot) = t.phases.toList
  phaseIds : (t.phases.toList.map fun b => b.head.id) =
    [BlockId.root.child 0, BlockId.root.child 1, BlockId.root.child 2]
  nested : ∀ b ∈ t.started, ∀ d ∈ b.blocks, ∃ i, d.head.id = b.head.id.child i
  increasing : t.started.Pairwise fun b d => b.head.id < d.head.id
  distinct : (t.started.map fun b => b.head.id).Nodup
  encloses : ∀ b ∈ t.started, ∀ d ∈ t.started,
    b.head.id.encloses d.head.id = true ↔ d ∈ b.allBlocks

section

variable {name : String} {model : Model} {options : Options} {comments : CommentTokens}
variable {commands : List Command} {t : SealedTemplate}

/-- In every template that a build seals to, the identities are positions. -/
theorem blocksByPosition_of_seal
    (h : ((Context.start name model options comments).run commands).seal = .ok t) :
    BlocksByPosition t := by
  have hrooted := Context.run_rooted (Context.Rooted.start name model options comments) commands
  have huser := Context.run_userBlocks
    (Context.UserBlocks.initially name model options comments) commands
  have hindexed : ∀ calls, Context.Indexed calls
      ((Context.start name model options comments).run commands) := fun _ =>
    Context.run_indexed (Context.Indexed.initially name model options comments) commands
  have hphase := Context.phase_of_seal hrooted (hindexed _) h
  have hordered := Context.pairwise_of_seal hrooted (hindexed _) h
  have hmem : ∀ b, b ∈ t.blocks ↔ ∃ p, b ∈ (t.phases.get p).allBlocks := by
    intro b
    rw [SealedTemplate.blocks, PhaseTable.toList_eq, List.flatMap_map, List.mem_flatMap]
    constructor
    · intro hb
      rcases hb with ⟨p, _, hp⟩
      exact ⟨p, hp⟩
    · intro hb
      rcases hb with ⟨p, hp⟩
      exact ⟨p, by cases p <;> simp [Phase.all], hp⟩
  have hbelow : ∀ p, ∀ b ∈ (t.phases.get p).allBlocks,
      (BlockId.root.child p.index).encloses b.head.id = true := by
    intro p b hb
    have hinside := Block.encloses_of_mem (hphase p).right hb
    rw [(hphase p).left] at hinside
    exact hinside
  rw [← SealedTemplate.started_eq] at hordered
  refine
    { reported := t.started_eq
      phaseRoots := ?_
      phaseIds := ?_
      nested := ?_
      increasing := hordered
      distinct := ?_
      encloses := ?_ }
  · rw [SealedTemplate.started_eq, SealedTemplate.blocks, PhaseTable.toList_eq,
      List.flatMap_map, List.filter_flatMap, List.map_eq_flatMap]
    apply congrArg (Phase.all.flatMap ·)
    funext p
    exact Context.phaseRoots_of_seal hrooted huser h p
  · have hids : ∀ p, (t.phases.get p).head.id = BlockId.root.child p.index := fun p =>
      congrArg BlockHead.id (hphase p).left
    rw [PhaseTable.toList_eq, List.map_map]
    exact List.map_congr_left fun p _ => hids p
  · intro b hb d hd
    rw [SealedTemplate.started_eq] at hb
    rcases (hmem b).mp hb with ⟨p, hp⟩
    exact ((hphase p).right b hp).index hd
  · rw [List.Nodup, List.pairwise_map]
    exact hordered.imp BlockId.ne_of_lt
  · intro b hb d hd
    rw [SealedTemplate.started_eq] at hb hd
    rcases (hmem b).mp hb with ⟨p, hp⟩
    rcases (hmem d).mp hd with ⟨q, hq⟩
    constructor
    · intro hencloses
      have hsame := BlockId.index_unique (BlockId.encloses_trans (hbelow p b hp) hencloses)
        (hbelow q d hq)
      rw [← Phase.index_inj.mp hsame] at hq
      exact Block.mem_of_encloses (hphase p).right hp hq hencloses
    · intro hinside
      apply Block.encloses_of_mem _ hinside
      intro e he
      exact (hphase p).right e (Block.mem_allBlocks_trans hp he)

end

def SampleBuild.withGap : List Command :=
  SampleBuild.commands ++
    [.openBlock .sequence {}, .openBlock .plain {}, .closeBlock, .openConstraint, .closeBlock,
      .openBlock .plain {}, .readStream "table", .closeBlock]

theorem blocksByPosition_of_seal_sample :
    ∃ t, (SampleBuild.start.run SampleBuild.withGap).seal = .ok t ∧
      (t.started.map fun b => b.head.id.path) =
        [[0], [1], [1, 0], [1, 0, 0], [1, 2], [1, 2, 0], [2]] ∧
      BlocksByPosition t := by
  have hids : ((SampleBuild.start.run SampleBuild.withGap).seal.toOption.map
      fun t => t.started.map fun b => b.head.id.path) =
        some [[0], [1], [1, 0], [1, 0, 0], [1, 2], [1, 2, 0], [2]] := by
    decide +kernel
  rcases Option.map_eq_some_iff.mp hids with ⟨t, hsome, hpaths⟩
  have ht := Checked.toOption_eq_some.mp hsome
  exact ⟨t, ht, hpaths, blocksByPosition_of_seal ht⟩

end Stimulus
