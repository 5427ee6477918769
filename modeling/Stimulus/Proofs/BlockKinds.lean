import Stimulus.Proofs.PlaceholderUses
import Stimulus.Proofs.ScopeOrigins
import Stimulus.Proofs.SealedBlocks
import Stimulus.Proofs.StreamExpansion

/-!
# Kinds of blocks

## Built trees

Below the root of a phase, a tree that is being built holds no block that its user
did not open.  No command changes the kind of a block.

## Unrolled trees

When the accesses are replaced, one block of calls comes in for each access, and no
other.  So a block that is marked as an expansion stands for an access.
-/

namespace Stimulus

variable {α : Type}

def Block.OpenedByUser (b : Block α) : Prop :=
  ∃ kind, b.head.kind = .user kind

/-!
# Scopes
-/

namespace Scope

variable {s s' : Scope} {added : List LabelDeclaration}

def HoldsUserBlocks (s : Scope) : Prop :=
  ∀ d ∈ s.block.blocks, ∀ e ∈ d.allBlocks, e.OpenedByUser

theorem Change.kind_eq (h : s.Change s' added) : s'.head.kind = s.head.kind := by
  cases h with
  | constrained hscope =>
      rcases Scope.constrain_eq_ok.mp hscope with ⟨_, _, rfl⟩
      rfl
  | _ => rfl

end Scope

/-!
# Contexts
-/

namespace Context

variable {c next : Context} {command : Command} {outcome : Except Refusal Reply}

theorem openedByUser_modifyTop (h : ∀ s ∈ c.scopes, s.block.OpenedByUser) {f : Scope → Scope}
    (hkind : (f c.top).head.kind = c.top.head.kind) :
    ∀ s ∈ (c.modifyTop f).scopes, s.block.OpenedByUser := by
  cases hscopes : c.scopes with
  | nil =>
      rw [modifyTop_nil hscopes]
      exact h
  | cons t rest =>
      rw [hscopes] at h
      rw [top_cons hscopes] at hkind
      rw [modifyTop_cons hscopes]
      rcases List.forall_mem_cons.mp h with ⟨⟨kind, ht⟩, hrest⟩
      exact List.forall_mem_cons.mpr ⟨⟨kind, hkind.trans ht⟩, hrest⟩

theorem openedByUser_of_step (h : ∀ s ∈ c.scopes, s.block.OpenedByUser)
    (hstep : Step c command outcome next) : ∀ s ∈ next.scopes, s.block.OpenedByUser := by
  have hpopped : ∀ {inner rest}, c.scopes = inner :: rest →
      ∀ s ∈ rest, s.block.OpenedByUser := by
    intro inner rest hscopes
    rw [hscopes] at h
    exact (List.forall_mem_cons.mp h).right
  rcases hstep.tree with htree | ⟨s, rest, _, hscopes, _, _, hnext⟩
  · cases htree with
    | kept htrees _ =>
        rw [htrees.scopes]
        exact h
    | advanced _ hnext _ _ =>
        rw [hnext]
        simp
    | changed hchange htrees _ =>
        rw [htrees.scopes]
        exact openedByUser_modifyTop h hchange.kind_eq
    | opened hnext =>
        rw [hnext]
        exact List.forall_mem_cons.mpr ⟨⟨_, rfl⟩, openedByUser_modifyTop h rfl⟩
    | closed hscopes _ _ hnext =>
        rw [hnext]
        exact openedByUser_modifyTop (hpopped hscopes) rfl
  · rw [hnext]
    exact hpopped hscopes

structure UserBlocks (c : Context) : Prop where
  scopes : ∀ s ∈ c.scopes, s.block.OpenedByUser
  blocks : ∀ s ∈ c.allScopes, s.HoldsUserBlocks

namespace UserBlocks

theorem initially (name : String) (model : Model) (options : Options)
    (comments : CommentTokens) : UserBlocks (start name model options comments) where
  scopes s hs := by
    cases hs
  blocks s hs := by
    rcases List.mem_append.mp hs with hroot | hopen
    · rcases PhaseTable.mem_toList.mp hroot with ⟨p, rfl⟩
      cases p <;> exact fun d hd => by cases hd
    · cases hopen

theorem step (h : UserBlocks c) (hstep : Step c command outcome next) : UserBlocks next where
  scopes := openedByUser_of_step h.scopes hstep
  blocks _ hs := by
    apply (origin_of_step hstep hs).holds h.blocks
    intro inner hinner _
    exact h.scopes inner hinner

end UserBlocks

theorem kind_of_built (hrooted : Rooted c) (huser : UserBlocks c) {s : Scope}
    (hs : s ∈ c.allScopes) {e : Block StreamAccess} (he : e ∈ s.block.allBlocks) :
    e.head.kind ≠ .expansion := by
  rcases Block.mem_allBlocks.mp he with rfl | ⟨d, hd, hed⟩
  · rcases List.mem_append.mp hs with hroot | hopen
    · rcases PhaseTable.mem_toList.mp hroot with ⟨p, rfl⟩
      rw [show (c.roots.get p).block.head = (Scope.phaseRoot p).head from hrooted.roots p]
      simp [Scope.phaseRoot]
    · rcases huser.scopes s hopen with ⟨kind, hkind⟩
      rw [hkind]
      simp
  · rcases huser.blocks s hs d hd e hed with ⟨kind, hkind⟩
    rw [hkind]
    simp

theorem run_userBlocks (h : UserBlocks c) (commands : List Command) :
    UserBlocks (c.run commands) :=
  run_invariant (fun _ _ _ _ hbefore hstep => hbefore.step hstep) h commands

end Context

/-!
# Unrolled trees
-/

def StreamAccess.head (a : StreamAccess) : BlockHead :=
  { id := a.block, kind := .expansion }

theorem BlockKind.isExpansion_iff {k : BlockKind} : k.isExpansion = true ↔ k = .expansion := by
  rcases k with kind | _ | _
  · cases kind <;> decide
  · decide
  · decide

theorem Scope.HoldsUserBlocks.allBlocksOf {s : Scope} (h : s.HoldsUserBlocks) :
    ∀ e ∈ Node.allBlocksOf s.children, e.OpenedByUser := by
  intro e he
  rw [Block.allBlocksOf_eq] at he
  rcases List.mem_flatMap.mp he with ⟨d, hd, hed⟩
  exact h d hd e hed

theorem Node.openedByUser_unrolledAll (calls : StreamAccess → List Primitive)
    {children : List (Node StreamAccess)}
    (huser : ∀ e ∈ Node.allBlocksOf children, e.OpenedByUser) {b : Block Empty}
    (hb : b ∈ Node.allBlocksOf (Node.unrolledAll calls children)) :
    b.OpenedByUser ∨ ∃ a ∈ Node.accessesOf children, b.head = a.head := by
  rcases Node.built_or_access_all calls children hb with ⟨e, he, rfl⟩ | ⟨a, ha, hba⟩
  · exact Or.inl (huser e he)
  · exact Or.inr ⟨a, ha, (Node.block.inj hba).left⟩

/-!
# Call sites of unrolled trees
-/

theorem StreamAccess.block?_of_mem (a : StreamAccess) (calls : List Primitive)
    {path : List BlockHead} {s : CallSite} (hs : s ∈ (a.unrolled calls).callSites path) : s.block? = some a.head := by
  rw [unrolled, Node.callSites, Node.callSitesOf_eq, List.flatMap_map] at hs
  rcases List.mem_flatMap.mp hs with ⟨c, _, hcall⟩
  rw [List.mem_singleton.mp hcall]
  rfl

mutual

theorem Node.access_of_inExpansion (calls : StreamAccess → List Primitive) :
    ∀ (n : Node StreamAccess) (path : List BlockHead),
      (∀ e ∈ n.allBlocks, e.OpenedByUser) → (∀ head ∈ path, head.kind ≠ .expansion) →
      ∀ s ∈ (n.unrolled calls).callSites path, s.inExpansion = true →
        ∃ a ∈ n.accesses, s.block? = some a.head
  | .call c, path => by
      intro _ hpath s hs hexpansion
      rw [List.mem_singleton.mp hs] at hexpansion
      rcases List.any_eq_true.mp hexpansion with ⟨head, hhead, hkind⟩
      exact absurd (BlockKind.isExpansion_iff.mp hkind) (hpath head hhead)
  | .block head children, path => by
      intro huser hpath s hs hexpansion
      rw [Node.allBlocks] at huser
      rw [Node.unrolled, Node.callSites] at hs
      rcases huser _ List.mem_cons_self with ⟨kind, hkind⟩
      have hhead : head.kind ≠ .expansion := by
        rw [show head.kind = .user kind from hkind]
        simp
      exact Node.access_of_inExpansionOf calls children (head :: path)
        (fun e he => huser e (List.mem_cons_of_mem _ he))
        (List.forall_mem_cons.mpr ⟨hhead, hpath⟩) s hs hexpansion
  | .access a, path => by
      intro _ _ s hs _
      exact ⟨a, List.mem_singleton_self a, a.block?_of_mem _ hs⟩
  | .label _, _ | .output _, _ | .directive _, _ => by
      intro _ _ s hs
      cases hs

theorem Node.access_of_inExpansionOf (calls : StreamAccess → List Primitive) :
    ∀ (children : List (Node StreamAccess)) (path : List BlockHead),
      (∀ e ∈ Node.allBlocksOf children, e.OpenedByUser) →
      (∀ head ∈ path, head.kind ≠ .expansion) →
      ∀ s ∈ Node.callSitesOf path (Node.unrolledAll calls children), s.inExpansion = true →
        ∃ a ∈ Node.accessesOf children, s.block? = some a.head
  | [], path => by
      intro _ _ s hs
      cases hs
  | n :: rest, path => by
      intro huser hpath s hs hexpansion
      rw [Node.allBlocksOf] at huser
      rw [Node.unrolledAll, Node.callSitesOf] at hs
      rw [Node.accessesOf]
      rcases List.mem_append.mp hs with hfirst | hrest
      · have huser := fun e he => huser e (List.mem_append_left _ he)
        rcases Node.access_of_inExpansion calls n path huser hpath s hfirst hexpansion with
          ⟨a, ha, hblock⟩
        exact ⟨a, List.mem_append_left _ ha, hblock⟩
      · have huser := fun e he => huser e (List.mem_append_right _ he)
        rcases Node.access_of_inExpansionOf calls rest path huser hpath s hrest hexpansion with
          ⟨a, ha, hblock⟩
        exact ⟨a, List.mem_append_right _ ha, hblock⟩

end

theorem Context.access_of_inExpansion {c : Context} (hrooted : Rooted c) (huser : UserBlocks c)
    {s : CallSite} (hs : s ∈ Block.allCallSites c.unrolled.toList)
    (hexpansion : s.inExpansion = true) : ∃ a ∈ c.accesses, s.block? = some a.head := by
  rcases List.mem_flatMap.mp hs with ⟨b, hb, hsite⟩
  rcases PhaseTable.mem_toList.mp hb with ⟨p, rfl⟩
  rw [unrolled, built, PhaseTable.get_map, PhaseTable.get_map] at hsite
  have hblocks := huser.blocks _ (List.mem_append_left _ (PhaseTable.mem_toList.mpr ⟨p, rfl⟩))
  have hhead : ∀ head ∈ [(c.roots.get p).head], head.kind ≠ .expansion := by
    rw [hrooted.roots]
    simp [Scope.phaseRoot]
  rcases Node.access_of_inExpansionOf c.callsOf (c.roots.get p).children _
    hblocks.allBlocksOf hhead s hsite hexpansion with ⟨a, ha, hblock⟩
  refine ⟨a, List.mem_flatMap.mpr ⟨c.built.get p, PhaseTable.mem_toList.mpr ⟨p, rfl⟩, ?_⟩, hblock⟩
  rw [built, PhaseTable.get_map]
  exact ha

end Stimulus
