import Mathlib.Data.List.Chain
import Stimulus.Proofs.BlockOrder
import Stimulus.Proofs.TreeSteps
import Stimulus.Proofs.Unrolling

/-!
# Indices of blocks

## Open scopes

A scope gives every block and every stream access in it an index that it has not given
out before.  An open scope has an index in the scope around it, greater than those of
the blocks that stand there already.

## Sealed trees

The trees that a build seals to are indexed, whatever commands were refused and
whatever blocks were lost.  So their blocks have distinct identities.
-/

namespace Stimulus

/-!
# Unrolled nodes
-/

theorem Node.unrolledAll_eq (calls : StreamAccess → List Primitive)
    (children : List (Node StreamAccess)) :
    Node.unrolledAll calls children = children.map (Node.unrolled calls) := by
  induction children with
  | nil =>
      rfl
  | cons n rest ih =>
      rw [Node.unrolledAll, ih, List.map_cons]

theorem Node.block?_unrolled_fresh {n : Node StreamAccess} (h : n.Fresh)
    (calls : StreamAccess → List Primitive) : (n.unrolled calls).block? = none := by
  cases n with
  | block head children => cases h
  | access a => cases h
  | _ => rfl

theorem StreamAccess.blocks_unrolled (a : StreamAccess) (calls : List Primitive) {b : Block Empty}
    (hb : (a.unrolled calls).block? = some b) : b.head.id = a.block ∧ b.blocks = [] := by
  cases hb
  refine ⟨rfl, ?_⟩
  rw [Block.blocks, List.filterMap_map]
  exact List.filterMap_eq_nil_iff.mpr fun _ _ => rfl

/-!
# Indexed scopes
-/

namespace Scope

variable {calls : StreamAccess → List Primitive} {s s' inner outer : Scope}
variable {added : List LabelDeclaration}

/-- The block that a scope makes as it stands, with every access replaced. -/
def unrolled (calls : StreamAccess → List Primitive) (s : Scope) : Block Empty :=
  s.block.unrolled calls

theorem blocks_unrolled (calls : StreamAccess → List Primitive) (s : Scope) :
    (s.unrolled calls).blocks = s.children.filterMap fun n => (n.unrolled calls).block? := by
  rw [unrolled, Block.unrolled, Node.unrolledAll_eq, Block.blocks, List.filterMap_map]
  rfl

theorem blocks_push (calls : StreamAccess → List Primitive) (s : Scope) (n : Node StreamAccess) :
    ((s.push n).unrolled calls).blocks =
      (s.unrolled calls).blocks ++ (n.unrolled calls).block?.toList := by
  rw [blocks_unrolled, blocks_unrolled, push, List.filterMap_append]
  cases h : (n.unrolled calls).block? <;> simp [h]

/-- The blocks in a scope have growing indices, all of them given out by the scope, and
are indexed themselves. -/
structure Indexed (calls : StreamAccess → List Primitive) (s : Scope) : Prop where
  own : ∃ indices : List Nat, indices.Pairwise (· < ·) ∧ (∀ i ∈ indices, i < s.issued) ∧
    ((s.unrolled calls).blocks.map fun d => d.head.id) = indices.map s.head.id.child
  inner : ∀ d ∈ (s.unrolled calls).blocks, ∀ e ∈ d.allBlocks, e.Indexed

namespace Indexed

theorem allBlocks (h : s.Indexed calls) : ∀ e ∈ (s.unrolled calls).allBlocks, e.Indexed := by
  intro e he
  rcases Block.mem_allBlocks.mp he with rfl | ⟨d, hd, hed⟩
  · rcases h.own with ⟨indices, hsorted, _, hids⟩
    exact ⟨indices, hsorted, hids⟩
  · exact h.inner d hd e hed

theorem empty (hchildren : s.children = []) : s.Indexed calls := by
  have hblocks : (s.unrolled calls).blocks = [] := by
    rw [blocks_unrolled, hchildren]
    rfl
  constructor
  · exact ⟨[], List.Pairwise.nil, by simp, by simp [hblocks]⟩
  · rw [hblocks]
    simp

theorem congr (h : s.Indexed calls) (hid : s'.head.id = s.head.id) (hissued : s'.issued = s.issued)
    (hblocks : (s'.unrolled calls).blocks = (s.unrolled calls).blocks) : s'.Indexed calls := by
  constructor
  · rw [hblocks, hid, hissued]
    exact h.own
  · rw [hblocks]
    exact h.inner

theorem extend (h : s.Indexed calls) {b : Block Empty} {i : Nat} (hid : s'.head.id = s.head.id)
    (hissued : s.issued ≤ s'.issued)
    (hblocks : (s'.unrolled calls).blocks = (s.unrolled calls).blocks ++ [b])
    (hb : b.head.id = s.head.id.child i) (hi : i < s'.issued)
    (hlast : ∀ d ∈ (s.unrolled calls).blocks, ∀ j, d.head.id = s.head.id.child j → j < i)
    (hinner : ∀ e ∈ b.allBlocks, e.Indexed) : s'.Indexed calls := by
  rcases h.own with ⟨indices, hsorted, hbound, hids⟩
  have hless : ∀ j ∈ indices, j < i := by
    intro j hj
    have hmem : s.head.id.child j ∈ (s.unrolled calls).blocks.map fun d => d.head.id := by
      rw [hids]
      exact List.mem_map_of_mem hj
    rcases List.mem_map.mp hmem with ⟨d, hd, hdj⟩
    exact hlast d hd j hdj
  constructor
  · refine ⟨indices ++ [i], ?_, ?_, ?_⟩
    · rw [List.pairwise_append]
      exact ⟨hsorted, List.pairwise_singleton _ _, by simpa using hless⟩
    · intro j hj
      rcases List.mem_append.mp hj with hold | hlast
      · exact Nat.lt_of_lt_of_le (hbound j hold) hissued
      · rw [List.mem_singleton.mp hlast]
        exact hi
    · rw [hblocks, hid, List.map_append, hids, List.map_append, List.map_singleton, hb]
      rfl
  · intro d hd
    rw [hblocks] at hd
    rcases List.mem_append.mp hd with hold | hlast
    · exact h.inner d hold
    · rw [List.mem_singleton.mp hlast]
      exact hinner

theorem index_lt (h : s.Indexed calls) : ∀ d ∈ (s.unrolled calls).blocks, ∀ j,
    d.head.id = s.head.id.child j → j < s.issued := by
  intro d hd j hj
  rcases h.own with ⟨indices, _, hbound, hids⟩
  have hmem : d.head.id ∈ indices.map s.head.id.child := by
    rw [← hids]
    exact List.mem_map_of_mem hd
  rcases List.mem_map.mp hmem with ⟨i, hi, hsame⟩
  rw [hj] at hsame
  rw [← BlockId.child_inj.mp hsame]
  exact hbound i hi

theorem reserve (h : s.Indexed calls) : s.reserve.Indexed calls := by
  rcases h.own with ⟨indices, hsorted, hbound, hids⟩
  exact ⟨⟨indices, hsorted, fun i hi => Nat.lt_succ_of_lt (hbound i hi), hids⟩, h.inner⟩

theorem change (h : s.Indexed calls) (hchange : s.Change s' added) : s'.Indexed calls := by
  cases hchange with
  | covered _ => exact h.congr rfl rfl rfl
  | constraining _ => exact h.congr rfl rfl rfl
  | constrained hscope =>
      rcases Scope.constrain_eq_ok.mp hscope with ⟨_, _, rfl⟩
      exact h.congr rfl rfl rfl
  | attached hchildren _ =>
      refine h.congr rfl rfl ?_
      rw [blocks_unrolled, blocks_unrolled, hchildren, List.filterMap_append,
        List.filterMap_append]
      rfl
  | pushed hfresh =>
      refine h.congr rfl rfl ?_
      rw [blocks_push, Node.block?_unrolled_fresh hfresh]
      exact List.append_nil _
  | accessed stream part =>
      let a : StreamAccess := ⟨stream, part, s.nextId⟩
      have hblock := a.blocks_unrolled (calls a) rfl
      refine h.extend (i := s.issued) rfl (Nat.le_succ _) (blocks_push calls s.reserve _) rfl
        (Nat.lt_succ_self _) h.index_lt ?_
      intro e he
      rcases Block.mem_allBlocks.mp he with rfl | ⟨d, hd, _⟩
      · exact ⟨[], List.Pairwise.nil, by rw [hblock.right]; rfl⟩
      · rw [hblock.right] at hd
        cases hd

end Indexed

def Nests (calls : StreamAccess → List Primitive) (inner outer : Scope) : Prop :=
  ∃ i, inner.head.id = outer.head.id.child i ∧ i < outer.issued ∧
    ∀ d ∈ (outer.unrolled calls).blocks, ∀ j, d.head.id = outer.head.id.child j → j < i

theorem Indexed.close (houter : outer.Indexed calls) (hinner : inner.Indexed calls)
    (hnests : Nests calls inner outer) :
    (outer.push inner.block.toNode).Indexed calls := by
  rcases hnests with ⟨i, hid, hi, hlast⟩
  exact houter.extend rfl (Nat.le_refl _) (blocks_push calls outer _) hid hi hlast
    hinner.allBlocks

end Scope

/-!
# Indexed contexts
-/

namespace Context

variable {calls : StreamAccess → List Primitive} {c c' next : Context} {command : Command}
variable {outcome : Except Refusal Reply}

def allScopes (c : Context) : List Scope :=
  c.roots.toList ++ c.scopes

def outer (c : Context) : List Scope :=
  match c.scopes with
  | [] => []
  | _ :: rest => rest ++ [c.roots.get c.phase]

def openPath (c : Context) : List Scope :=
  c.top :: c.outer

theorem outer_nil (h : c.scopes = []) : c.outer = [] := by
  unfold outer
  rw [h]

theorem outer_cons {s : Scope} {rest : List Scope} (h : c.scopes = s :: rest) :
    c.outer = ({ c with scopes := rest } : Context).openPath := by
  unfold outer openPath top outer
  rw [h]
  cases rest <;> rfl

theorem allScopes_congr (hroots : c'.roots = c.roots) (hscopes : c'.scopes = c.scopes) :
    c'.allScopes = c.allScopes := by
  unfold allScopes
  rw [hroots, hscopes]

theorem SameTrees.allScopes (h : SameTrees c c') : c.allScopes = c'.allScopes :=
  allScopes_congr h.roots h.scopes

theorem SameTrees.openPath (h : SameTrees c c') : c.openPath = c'.openPath := by
  unfold Context.openPath Context.outer
  rw [h.top, h.scopes, h.roots, h.phase]

theorem allScopes_modifyTop (c : Context) :
    ∃ front back, c.allScopes = front ++ c.top :: back ∧
      ∀ f, (c.modifyTop f).allScopes = front ++ f c.top :: back := by
  unfold allScopes
  cases hscopes : c.scopes with
  | nil =>
      simp only [modifyTop_nil hscopes, top_nil hscopes, hscopes]
      cases c.phase with
      | pre => exact ⟨[], [c.roots.run, c.roots.post], rfl, fun _ => rfl⟩
      | run => exact ⟨[c.roots.pre], [c.roots.post], rfl, fun _ => rfl⟩
      | post => exact ⟨[c.roots.pre, c.roots.run], [], rfl, fun _ => rfl⟩
  | cons s rest =>
      simp only [modifyTop_cons hscopes, top_cons hscopes]
      exact ⟨c.roots.toList, rest, rfl, fun _ => rfl⟩

theorem top_mem (c : Context) : c.top ∈ c.allScopes := by
  rcases c.allScopes_modifyTop with ⟨front, back, hold, _⟩
  rw [hold]
  exact List.mem_append_right _ List.mem_cons_self

theorem mem_allScopes_modifyTop {f : Scope → Scope} {s : Scope}
    (h : s ∈ (c.modifyTop f).allScopes) : s = f c.top ∨ s ∈ c.allScopes := by
  rcases c.allScopes_modifyTop with ⟨front, back, hold, hnew⟩
  rw [hnew] at h
  rw [hold]
  rcases List.mem_append.mp h with hfront | hrest
  · exact Or.inr (List.mem_append_left _ hfront)
  · rcases List.mem_cons.mp hrest with hsame | hback
    · exact Or.inl hsame
    · exact Or.inr (List.mem_append_right _ (List.mem_cons_of_mem _ hback))

theorem mem_allScopes_cons {s o : Scope} {rest : List Scope} (hscopes : c.scopes = s :: rest) :
    o ∈ c.allScopes ↔ o = s ∨ o ∈ ({ c with scopes := rest } : Context).allScopes := by
  unfold allScopes
  rw [hscopes, List.mem_append, List.mem_cons, List.mem_append, or_left_comm]

theorem top_modifyTop (c : Context) (f : Scope → Scope) : (c.modifyTop f).top = f c.top := by
  cases hscopes : c.scopes with
  | nil =>
      have hnext : (c.modifyTop f).scopes = [] := by
        rw [modifyTop_nil hscopes]
        exact hscopes
      rw [top_nil hnext, top_nil hscopes, modifyTop_nil hscopes]
      simp [PhaseTable.get_modify]
  | cons s rest =>
      rw [modifyTop_cons hscopes, top_cons hscopes]
      rfl

theorem outer_modifyTop (c : Context) (f : Scope → Scope) :
    (c.modifyTop f).outer = c.outer := by
  unfold outer
  cases hscopes : c.scopes with
  | nil =>
      rw [modifyTop_nil hscopes, hscopes]
  | cons s rest =>
      rw [modifyTop_cons hscopes]

theorem openPath_modifyTop (c : Context) (f : Scope → Scope) :
    (c.modifyTop f).openPath = f c.top :: c.outer := by
  rw [openPath, top_modifyTop, outer_modifyTop]

structure Indexed (calls : StreamAccess → List Primitive) (c : Context) : Prop where
  scopes : ∀ s ∈ c.allScopes, s.Indexed calls
  nested : c.openPath.IsChain (Scope.Nests calls)

namespace Indexed

theorem initially (name : String) (model : Model) (options : Options)
    (comments : CommentTokens) :
    Indexed calls (Context.start name model options comments) where
  scopes s hs := by
    rcases List.mem_append.mp hs with hroot | hopen
    · rcases PhaseTable.mem_toList.mp hroot with ⟨p, rfl⟩
      apply Scope.Indexed.empty
      cases p <;> rfl
    · cases hopen
  nested := List.isChain_singleton _

theorem sameTrees (h : Indexed calls c) (hsame : SameTrees c' c) : Indexed calls c' where
  scopes := by
    rw [hsame.allScopes]
    exact h.scopes
  nested := by
    rw [hsame.openPath]
    exact h.nested

theorem modifyTop (h : Indexed calls c) {f : Scope → Scope}
    (hid : (f c.top).head.id = c.top.head.id) (hindexed : (f c.top).Indexed calls) :
    Indexed calls (c.modifyTop f) where
  scopes s hs := by
    rcases mem_allScopes_modifyTop hs with rfl | hold
    · exact hindexed
    · exact h.scopes s hold
  nested := by
    rw [openPath_modifyTop]
    have hnested := h.nested
    unfold openPath at hnested
    rw [List.isChain_cons] at hnested ⊢
    refine ⟨?_, hnested.right⟩
    intro outer houter
    unfold Scope.Nests
    rw [hid]
    exact hnested.left outer houter

theorem pop (h : Indexed calls c) {s : Scope} {rest : List Scope} (hscopes : c.scopes = s :: rest) :
    Indexed calls { c with scopes := rest } where
  scopes s' hs' := h.scopes s' ((mem_allScopes_cons hscopes).mpr (Or.inr hs'))
  nested := by
    have hnested := h.nested
    unfold openPath at hnested
    rw [outer_cons hscopes] at hnested
    exact hnested.tail

theorem nests (h : Indexed calls c) {s : Scope} {rest : List Scope}
    (hscopes : c.scopes = s :: rest) :
    Scope.Nests calls s ({ c with scopes := rest } : Context).top := by
  have hnested := h.nested
  unfold openPath at hnested
  rw [outer_cons hscopes, top_cons hscopes] at hnested
  exact (List.isChain_cons_cons.mp hnested).left

theorem opened (h : Indexed calls c) (kind : ScopeKind) (requested : BlockAttributes) :
    Indexed calls { c.modifyTop Scope.reserve with
      scopes := c.top.nested kind requested :: (c.modifyTop Scope.reserve).scopes } := by
  have htop := h.scopes c.top c.top_mem
  have hreserved := h.modifyTop (f := Scope.reserve) rfl htop.reserve
  refine ⟨?_, ?_⟩
  · intro s hs
    rcases (mem_allScopes_cons rfl).mp hs with rfl | hrest
    · exact Scope.Indexed.empty rfl
    · exact hreserved.scopes s hrest
  · unfold openPath
    rw [outer_cons rfl]
    have hnested := hreserved.nested
    rw [openPath_modifyTop] at hnested
    have hpath : ({ c.modifyTop Scope.reserve with
        scopes := (c.modifyTop Scope.reserve).scopes } : Context).openPath =
          c.top.reserve :: c.outer := openPath_modifyTop c Scope.reserve
    rw [hpath]
    exact List.isChain_cons_cons.mpr
      ⟨⟨c.top.issued, rfl, Nat.lt_succ_self _, htop.index_lt⟩, hnested⟩

theorem treeStep (h : Indexed calls c) (hstep : TreeStep c next) : Indexed calls next := by
  cases hstep with
  | kept htrees _ => exact h.sameTrees htrees
  | advanced hscopes hnext hroots _ =>
      refine ⟨?_, ?_⟩
      · rw [allScopes_congr hroots (hnext.trans hscopes.symm)]
        exact h.scopes
      · unfold openPath
        rw [outer_nil hnext]
        exact List.isChain_singleton _
  | changed hchange htrees _ =>
      have htop := h.scopes c.top c.top_mem
      exact (h.modifyTop hchange.id_eq (htop.change hchange)).sameTrees htrees
  | opened hnext =>
      rw [hnext]
      exact h.opened _ _
  | @closed s rest hscopes _ _ hnext =>
      have hinner := h.scopes s ((mem_allScopes_cons hscopes).mpr (Or.inl rfl))
      have hpopped := h.pop hscopes
      have houter := hpopped.scopes _ (top_mem _)
      rw [hnext]
      exact hpopped.modifyTop rfl (houter.close hinner (h.nests hscopes))

theorem step (h : Indexed calls c) (hstep : Step c command outcome next) :
    Indexed calls next := by
  rcases hstep.tree with htree | ⟨s, rest, _, hscopes, _, _, hnext⟩
  · exact h.treeStep htree
  · rw [hnext]
    exact h.pop hscopes

end Indexed

theorem run_indexed (h : Indexed calls c) (commands : List Command) :
    Indexed calls (c.run commands) :=
  run_invariant (fun _ _ _ _ hbefore hstep => hbefore.step hstep) h commands

end Context

/-!
# Sealed trees
-/

def SealedTemplate.blocks (t : SealedTemplate) : List (Block Empty) :=
  t.phases.toList.flatMap Block.allBlocks

theorem Context.blocks_of_seal {c : Context} {t : SealedTemplate} (h : c.seal = .ok t) :
    t.blocks = c.allScopes.flatMap fun s => (s.unrolled c.callsOf).allBlocks := by
  rw [SealedTemplate.blocks, (unrolled_of_seal h).right.left, allScopes, (seal_eq_ok.mp h).left,
    List.append_nil]
  rfl

theorem Context.pairwise_of_seal {c : Context} {t : SealedTemplate} (hrooted : Rooted c)
    (hindexed : Indexed c.callsOf c) (h : c.seal = .ok t) :
    t.blocks.Pairwise fun d e => d.head.id < e.head.id := by
  rw [blocks_of_seal h, allScopes, (seal_eq_ok.mp h).left, List.append_nil,
    List.pairwise_flatMap]
  have hroot : ∀ p, ((c.roots.get p).unrolled c.callsOf).head.id =
      BlockId.root.child p.index := by
    intro p
    exact congrArg BlockHead.id (hrooted.roots p)
  have hin : ∀ p, (c.roots.get p).Indexed c.callsOf := by
    intro p
    exact hindexed.scopes _ (List.mem_append_left _ (PhaseTable.mem_toList.mpr ⟨p, rfl⟩))
  have hencloses : ∀ p, ∀ d ∈ ((c.roots.get p).unrolled c.callsOf).allBlocks,
      (BlockId.root.child p.index).encloses d.head.id = true := by
    intro p d hd
    rw [← hroot p]
    exact Block.encloses_of_mem (hin p).allBlocks hd
  constructor
  · intro s hs
    rcases PhaseTable.mem_toList.mp hs with ⟨p, rfl⟩
    exact Block.pairwise_lt (hin p).allBlocks
  · have hphases : Phase.all.Pairwise fun p q => p.index < q.index := by
      decide
    rw [PhaseTable.toList_eq, List.pairwise_map]
    apply hphases.imp
    intro p q hlt d hd e he
    exact BlockId.lt_of_index_lt hlt (hencloses p d hd) (hencloses q e he)

theorem nodup_of_seal {name : String} {model : Model} {options : Options}
    {comments : CommentTokens} {commands : List Command} {t : SealedTemplate}
    (h : ((Context.start name model options comments).run commands).seal = .ok t) :
    (t.blocks.map fun b => b.head.id).Nodup := by
  have hrooted := Context.run_rooted (Context.Rooted.start name model options comments) commands
  have hindexed : ∀ calls, Context.Indexed calls
      ((Context.start name model options comments).run commands) := fun _ =>
    Context.run_indexed (Context.Indexed.initially name model options comments) commands
  rw [List.Nodup, List.pairwise_map]
  exact (Context.pairwise_of_seal hrooted (hindexed _) h).imp BlockId.ne_of_lt

end Stimulus
