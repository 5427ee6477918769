import Stimulus.Proofs.BlockIndices
import Stimulus.Proofs.LabelScopes

/-!
# Lost scopes

## Refused ends

The end of a block takes the innermost scope off before it is checked.  So when it is
refused the scope is lost with all that stands in it, and nothing else changes.

## Builds that go on

The identity of a lost scope is not given out again, nor is any below it.  So a build
that goes on and seals has no block there, while the labels of the scope remain.
-/

namespace Stimulus

/-!
# Scopes that avoid an identity
-/

namespace Scope

variable {calls : StreamAccess → List Primitive} {lost : BlockId} {s s' inner outer : Scope}
variable {added : List LabelDeclaration}

/-- No block that stands in the scope lies in `lost`, and no identity that the scope has
still to give out is around `lost`. -/
structure Avoids (calls : StreamAccess → List Primitive) (lost : BlockId) (s : Scope) : Prop where
  blocks : ∀ b ∈ (s.unrolled calls).allBlocks, ¬ lost.encloses b.head.id = true
  later : ∀ i, s.issued ≤ i → ¬ (s.head.id.child i).encloses lost = true

namespace Avoids

theorem own (h : s.Avoids calls lost) : ¬ lost.encloses s.head.id = true :=
  h.blocks _ (Block.self_mem_allBlocks _)

theorem next (h : s.Avoids calls lost) : ¬ lost.encloses s.nextId = true := by
  intro hlost
  rcases BlockId.encloses_child_cases hlost with hsame | houter
  · apply h.later s.issued (Nat.le_refl _)
    rw [hsame]
    exact BlockId.encloses_refl _
  · exact h.own houter

theorem extend (h : s.Avoids calls lost) (hid : s'.head.id = s.head.id)
    (hissued : s.issued ≤ s'.issued)
    (hblocks : ∀ d ∈ (s'.unrolled calls).blocks, d ∈ (s.unrolled calls).blocks ∨
      ∀ b ∈ d.allBlocks, ¬ lost.encloses b.head.id = true) : s'.Avoids calls lost where
  blocks b hb := by
    rcases Block.mem_allBlocks.mp hb with rfl | ⟨d, hd, hbd⟩
    · have hown := h.own
      rw [← hid] at hown
      exact hown
    · rcases hblocks d hd with hold | hnew
      · exact h.blocks b (Block.mem_allBlocks.mpr (Or.inr ⟨d, hold, hbd⟩))
      · exact hnew b hbd
  later i hi := by
    rw [hid]
    exact h.later i (Nat.le_trans hissued hi)

theorem push (h : s.Avoids calls lost) {n : Node StreamAccess}
    (hn : ∀ d, (n.unrolled calls).block? = some d →
      ∀ b ∈ d.allBlocks, ¬ lost.encloses b.head.id = true) : (s.push n).Avoids calls lost := by
  refine h.extend rfl (Nat.le_refl _) ?_
  intro d hd
  rw [blocks_push] at hd
  rcases List.mem_append.mp hd with hold | hnew
  · exact Or.inl hold
  · exact Or.inr (hn d (Option.mem_toList.mp hnew))

theorem reserve (h : s.Avoids calls lost) : s.reserve.Avoids calls lost :=
  h.extend rfl (Nat.le_succ _) fun _ hd => Or.inl hd

theorem change (h : s.Avoids calls lost) (hchange : s.Change s' added) :
    s'.Avoids calls lost := by
  cases hchange with
  | covered _ => exact h.extend rfl (Nat.le_refl _) fun _ hd => Or.inl hd
  | constraining _ => exact h.extend rfl (Nat.le_refl _) fun _ hd => Or.inl hd
  | constrained hscope =>
      rcases Scope.constrain_eq_ok.mp hscope with ⟨_, _, rfl⟩
      exact h.extend rfl (Nat.le_refl _) fun _ hd => Or.inl hd
  | attached hchildren _ =>
      refine h.extend rfl (Nat.le_refl _) ?_
      intro d hd
      left
      rw [blocks_unrolled, List.filterMap_append] at hd
      rw [blocks_unrolled, hchildren, List.filterMap_append]
      exact hd
  | pushed hfresh =>
      apply h.push
      intro d hd
      rw [Node.block?_unrolled_fresh hfresh] at hd
      cases hd
  | accessed stream part =>
      apply h.reserve.push
      intro d hd b hb
      rcases StreamAccess.blocks_unrolled ⟨stream, part, s.nextId⟩ _ hd with
        ⟨hid, hinner⟩
      rw [Block.allBlocks_eq, hinner] at hb
      rw [List.mem_singleton.mp hb, hid]
      exact h.next

theorem nested (h : s.Avoids calls lost) (kind : ScopeKind) (requested : BlockAttributes) :
    (s.nested kind requested).Avoids calls lost where
  blocks b hb := by
    rcases Block.mem_allBlocks.mp hb with rfl | ⟨d, hd, _⟩
    · exact h.next
    · cases hd
  later i _ hi :=
    h.later s.issued (Nat.le_refl _) (BlockId.encloses_trans (BlockId.encloses_child _ i) hi)

theorem close (houter : outer.Avoids calls lost) (hinner : inner.Avoids calls lost) :
    (outer.push inner.block.toNode).Avoids calls lost := by
  apply houter.push
  intro d hd
  cases hd
  exact hinner.blocks

end Avoids

theorem Indexed.avoids (h : s.Indexed calls) {k : Nat} (hk : k < s.issued)
    (hlast : ∀ d ∈ (s.unrolled calls).blocks, ∀ j, d.head.id = s.head.id.child j → j < k)
    (hlost : (s.head.id.child k).encloses lost = true) : s.Avoids calls lost where
  blocks b hb hin := by
    have hbelow := BlockId.encloses_trans hlost hin
    rcases Block.mem_allBlocks.mp hb with rfl | ⟨d, hd, hbd⟩
    · exact BlockId.ne_of_lt (BlockId.lt_of_encloses_child hbelow) rfl
    · rcases (h.allBlocks _ (Block.self_mem_allBlocks _)).index hd with ⟨j, hj⟩
      have hinside := Block.encloses_of_mem (h.inner d hd) hbd
      rw [hj] at hinside
      have hlt := hlast d hd j hj
      rw [BlockId.index_unique hinside hbelow] at hlt
      exact Nat.lt_irrefl k hlt
  later i hi hin := by
    rw [BlockId.index_unique hin hlost] at hi
    exact Nat.not_lt.mpr hi hk

theorem Indexed.avoids_of_apart (h : s.Indexed calls)
    (hapart : ∀ d, s.head.id.encloses d = true → ¬ lost.encloses d = true) :
    s.Avoids calls lost where
  blocks _ hb := hapart _ (Block.encloses_of_mem h.allBlocks hb)
  later i _ hin :=
    hapart lost (BlockId.encloses_trans (BlockId.encloses_child _ i) hin)
      (BlockId.encloses_refl _)

theorem avoids_of_nests {path : List Scope} (hpath : (s :: path).IsChain (Nests calls))
    (hindexed : ∀ o ∈ path, o.Indexed calls) (hlost : s.head.id.encloses lost = true) :
    ∀ o ∈ path, o.head.id.encloses lost = true ∧ o.Avoids calls lost := by
  induction path generalizing s with
  | nil =>
      simp
  | cons o rest ih =>
      rcases List.isChain_cons_cons.mp hpath with ⟨⟨k, hid, hk, hlast⟩, hrest⟩
      rw [hid] at hlost
      have ho := BlockId.encloses_trans (BlockId.encloses_child _ k) hlost
      have havoids := (hindexed o List.mem_cons_self).avoids hk hlast hlost
      have hothers := ih hrest (fun o' ho' => hindexed o' (List.mem_cons_of_mem _ ho')) ho
      exact List.forall_mem_cons.mpr ⟨⟨ho, havoids⟩, hothers⟩

end Scope

/-!
# Contexts that avoid an identity
-/

namespace Context

variable {calls : StreamAccess → List Primitive} {lost : BlockId} {c next : Context}
variable {command : Command} {outcome : Except Refusal Reply} {s : Scope} {rest : List Scope}

theorem openPath_eq (c : Context) : c.openPath = c.scopes ++ [c.roots.get c.phase] := by
  unfold openPath outer top
  cases c.scopes <;> rfl

/-- No root and no open scope comes near `lost`. -/
def Avoids (calls : StreamAccess → List Primitive) (lost : BlockId) (c : Context) : Prop :=
  ∀ s ∈ c.allScopes, s.Avoids calls lost

namespace Avoids

theorem modifyTop (h : Avoids calls lost c) {f : Scope → Scope}
    (hf : (f c.top).Avoids calls lost) : Avoids calls lost (c.modifyTop f) := by
  intro s hs
  rcases mem_allScopes_modifyTop hs with rfl | hold
  · exact hf
  · exact h s hold

theorem pop (h : Avoids calls lost c) (hscopes : c.scopes = s :: rest) :
    Avoids calls lost { c with scopes := rest } := by
  intro s' hs'
  exact h s' ((mem_allScopes_cons hscopes).mpr (Or.inr hs'))

theorem treeStep (h : Avoids calls lost c) (hstep : TreeStep c next) :
    Avoids calls lost next := by
  cases hstep with
  | kept htrees _ =>
      unfold Avoids
      rw [htrees.allScopes]
      exact h
  | advanced hscopes hnext hroots _ =>
      unfold Avoids
      rw [allScopes_congr hroots (hnext.trans hscopes.symm)]
      exact h
  | changed hchange htrees _ =>
      unfold Avoids
      rw [htrees.allScopes]
      exact h.modifyTop ((h c.top c.top_mem).change hchange)
  | opened hnext =>
      have htop := h c.top c.top_mem
      have hreserved := h.modifyTop (f := Scope.reserve) htop.reserve
      intro s hs
      rw [hnext] at hs
      rcases (mem_allScopes_cons rfl).mp hs with rfl | hrest
      · exact htop.nested _ _
      · exact hreserved s hrest
  | @closed s rest hscopes _ _ hnext =>
      have hinner := h s ((mem_allScopes_cons hscopes).mpr (Or.inl rfl))
      have hpopped := h.pop hscopes
      rw [hnext]
      exact hpopped.modifyTop ((hpopped _ (top_mem _)).close hinner)

theorem step (h : Avoids calls lost c) (hstep : Step c command outcome next) :
    Avoids calls lost next := by
  rcases hstep.tree with htree | ⟨s, rest, _, hscopes, _, _, hnext⟩
  · exact h.treeStep htree
  · rw [hnext]
    exact h.pop hscopes

theorem run (h : Avoids calls lost c) (commands : List Command) :
    Avoids calls lost (c.run commands) :=
  run_invariant (fun _ _ _ _ hbefore hstep => hbefore.step hstep) h commands

end Avoids

theorem avoids_of_drop (hrooted : Rooted c) (hindexed : Indexed calls c)
    (hscopes : c.scopes = s :: rest) :
    Avoids calls s.head.id { c with scopes := rest } := by
  have hpopped := hindexed.pop hscopes
  have hpath := hindexed.nested
  unfold openPath at hpath
  rw [top_cons hscopes, outer_cons hscopes, openPath_eq] at hpath
  have hmem : ∀ o ∈ rest ++ [c.roots.get c.phase], o.Indexed calls := by
    intro o ho
    apply hpopped.scopes
    rcases List.mem_append.mp ho with hopen | hroot
    · exact List.mem_append_right _ hopen
    · rw [List.mem_singleton.mp hroot]
      exact List.mem_append_left _ (PhaseTable.mem_toList.mpr ⟨_, rfl⟩)
  have haround := Scope.avoids_of_nests hpath hmem (BlockId.encloses_refl _)
  intro o ho
  rcases List.mem_append.mp ho with hroot | hopen
  · rcases PhaseTable.mem_toList.mp hroot with ⟨p, rfl⟩
    by_cases hp : p = c.phase
    · rw [hp]
      exact (haround _ (List.mem_append_right _ (List.mem_singleton_self _))).right
    · -- The roots of two phases have no block in common.
      apply (hpopped.scopes _ (List.mem_append_left _ hroot)).avoids_of_apart
      intro d hd hlost
      have hphase := (haround _ (List.mem_append_right _ (List.mem_singleton_self _))).left
      rw [hrooted.roots] at hd hphase
      have hsame := BlockId.index_unique hd (BlockId.encloses_trans hphase hlost)
      exact hp (Phase.index_inj.mp hsame)
  · exact (haround o (List.mem_append_left _ hopen)).right

theorem closeBlock_refused {cause : Refusal} (hscopes : c.scopes = s :: rest)
    (h : c.closeBlock = (.error cause, next)) :
    next = { c with scopes := rest } ∧
      ((s.constraining = true ∧ cause = .structural .constraintLeftOpen) ∨
        (s.constraining = false ∧ ∃ fault, s.block.checkCover = .error fault ∧
          cause = .structural fault)) := by
  unfold closeBlock at h
  rw [hscopes] at h
  cases hconstraining : s.constraining with
  | true =>
      simp only [hconstraining, if_true] at h
      cases h
      exact ⟨rfl, Or.inl ⟨rfl, rfl⟩⟩
  | false =>
      simp only [hconstraining, Bool.false_eq_true, if_false] at h
      cases hcover : s.block.checkCover with
      | error fault =>
          rw [hcover] at h
          cases h
          exact ⟨rfl, Or.inr ⟨rfl, fault, rfl, rfl⟩⟩
      | ok _ =>
          rw [hcover] at h
          cases h

theorem mem_labels_run {e : LabelDeclaration} (he : e ∈ c.labels.entries)
    (commands : List Command) : e ∈ (c.run commands).labels.entries := by
  apply run_invariant (I := fun next => e ∈ next.labels.entries) _ he
  intro before command outcome next hbefore hstep
  exact mem_labels_of_step hbefore hstep

/-- What a refused end of a block makes of `c`, whose innermost scope is `s`. -/
structure LosesScope (c next : Context) (cause : Refusal) (s : Scope) (rest : List Scope) :
    Prop where
  dropped : next = { c with scopes := rest }
  cause : (s.constraining = true ∧ cause = .structural .constraintLeftOpen) ∨
    (s.constraining = false ∧ ∃ fault, s.block.checkCover = .error fault ∧
      cause = .structural fault)
  unsealed : ∀ later t, (next.run later).seal = .ok t →
    ∀ b ∈ t.blocks, ¬ s.head.id.encloses b.head.id = true
  labels : ∀ later t, (next.run later).seal = .ok t →
    ∀ e ∈ c.labels.entries, e ∈ t.labels.entries

end Context

section

variable {name : String} {model : Model} {options : Options} {comments : CommentTokens}

/-- The end of a block that is refused leaves a build as it is where no block is open, and
only there. -/
theorem losesScope_of_closeBlock {c : Context} {commands : List Command} {cause : Refusal}
    {next : Context} (hc : (Context.start name model options comments).run commands = c)
    (h : c.closeBlock = (.error cause, next)) :
    (next = c ↔ c.scopes = []) ∧
      ∀ s rest, c.scopes = s :: rest → Context.LosesScope c next cause s rest := by
  subst hc
  have hrooted := Context.run_rooted (Context.Rooted.start name model options comments) commands
  have hindexed : ∀ calls, Context.Indexed calls
      ((Context.start name model options comments).run commands) := fun calls =>
    Context.run_indexed (Context.Indexed.initially name model options comments) commands
  generalize (Context.start name model options comments).run commands = c at *
  have hlost : ∀ s rest, c.scopes = s :: rest → Context.LosesScope c next cause s rest := by
    intro s rest hscopes
    rcases Context.closeBlock_refused hscopes h with ⟨rfl, hcause⟩
    refine ⟨rfl, hcause, ?_, ?_⟩
    · intro later t ht b hb
      rw [Context.blocks_of_seal ht] at hb
      rcases List.mem_flatMap.mp hb with ⟨o, ho, hbo⟩
      exact ((Context.avoids_of_drop hrooted (hindexed _) hscopes).run later o ho).blocks b hbo
    · intro later t ht e he
      have hkept : e ∈ ({ c with scopes := rest } : Context).labels.entries := he
      rw [(Context.unrolled_of_seal ht).right.right.left]
      exact Context.mem_labels_run hkept later
  refine ⟨⟨?_, ?_⟩, hlost⟩
  · intro hsame
    cases hscopes : c.scopes with
    | nil => rfl
    | cons s rest =>
        have hlength := congrArg (fun c : Context => c.scopes.length) (hlost s rest hscopes).dropped
        rw [hsame] at hlength
        simp [hscopes] at hlength
  · intro hscopes
    unfold Context.closeBlock at h
    rw [hscopes] at h
    cases h
    rfl

end

def SampleBuild.unfinished : Context :=
  SampleBuild.start.run
    [.advanceTo .run, .openBlock .sequence {}, .instruction "j" [.concrete 0], .label "inside",
      .openConstraint]

theorem losesScope_of_closeBlock_sample :
    ∃ next s,
      SampleBuild.unfinished.closeBlock = (.error (.structural .constraintLeftOpen), next) ∧
      SampleBuild.unfinished.scopes = [s] ∧ s.head.id = ⟨[1, 0]⟩ ∧ s.children.length = 2 ∧
      Context.LosesScope SampleBuild.unfinished next (.structural .constraintLeftOpen) s [] :=
  ⟨_, _, rfl, rfl, rfl, rfl, (losesScope_of_closeBlock rfl rfl).right _ _ rfl⟩

theorem unfinished_not_kept :
    ∃ cause next, SampleBuild.unfinished.closeBlock = (.error cause, next) ∧
      next ≠ SampleBuild.unfinished ∧
      (next.seal.toOption.map fun t =>
        (t.blocks.map fun b => b.children.length, t.labels.entries.map LabelDeclaration.place)) =
        some ([0, 0, 0], [.code ⟨[1, 0]⟩ 1]) := by
  refine ⟨_, _, rfl, ?_, ?_⟩
  · intro hsame
    have hdepth := congrArg Context.depth hsame
    cases hdepth
  · decide

end Stimulus
