import Stimulus.Proofs.BlockIndices

/-!
# Origins of scopes

## One step

Of the scopes that a step leaves, most stood there before.  The others come from the
innermost scope by one change, or from a block that begins or ends.  `Scope.Origin`
lists them with the conditions under which they come about.

## Runs

What every scope has initially and what passes on to the scopes that a step makes, all
scopes have after a run, whatever was refused on the way.
-/

namespace Stimulus

/-!
# Blocks held by a scope
-/

namespace Scope

variable {s s' inner outer : Scope} {P : Block StreamAccess → Prop}

theorem block_blocks (s : Scope) : s.block.blocks = s.children.filterMap Node.block? :=
  rfl

theorem block_push (s : Scope) (n : Node StreamAccess) :
    (s.push n).block.blocks = s.block.blocks ++ n.block?.toList := by
  rw [block_blocks, block_blocks, push, List.filterMap_append]
  cases n <;> rfl

/-- Every block that stands in the scope, at any depth, has the property. -/
def Holds (P : Block StreamAccess → Prop) (s : Scope) : Prop :=
  ∀ d ∈ s.block.blocks, ∀ e ∈ d.allBlocks, P e

theorem holds_nil (hchildren : s.block.blocks = []) : s.Holds P := by
  intro d hd
  rw [hchildren] at hd
  cases hd

theorem Holds.congr (h : s.Holds P) (hblocks : s'.block.blocks = s.block.blocks) :
    s'.Holds P := by
  unfold Holds
  rw [hblocks]
  exact h

theorem Holds.allBlocks (h : s.Holds P) (hown : P s.block) : ∀ e ∈ s.block.allBlocks, P e := by
  intro e he
  rcases Block.mem_allBlocks.mp he with rfl | ⟨d, hd, hed⟩
  · exact hown
  · exact h d hd e hed

theorem Holds.close (houter : outer.Holds P) (hinner : inner.Holds P) (hown : P inner.block) :
    (outer.push inner.block.toNode).Holds P := by
  intro d hd
  rw [block_push] at hd
  rcases List.mem_append.mp hd with hold | hnew
  · exact houter d hold
  · rw [List.mem_singleton.mp hnew]
    exact hinner.allBlocks hown

/-!
# Where scopes come from
-/

inductive Origin (c : Context) : Scope → Prop where
  | kept {s : Scope} (hs : s ∈ c.allScopes) : Origin c s
  | reserved : Origin c c.top.reserve
  | opened (kind : ScopeKind) (requested : BlockAttributes) :
      Origin c (c.top.nested kind requested)
  | closed {inner outer : Scope} (hinner : inner ∈ c.scopes) (houter : outer ∈ c.allScopes)
      (hcover : inner.block.checkCover = .ok ()) : Origin c (outer.push inner.block.toNode)
  | covered (situation : Situation) :
      Origin c { c.top with head := { c.top.head with situation := some situation } }
  | constraining {opened : Bool}
      (hsequence : opened = true → c.top.head.kind.isSequence = true) :
      Origin c { c.top with constraining := opened }
  | constrained {s' : Scope} {resourceClass : String} {clauses : List AllocationClause}
      {a : Allocation} (hconstraining : c.top.constraining = true)
      (hclauses : Allocation.ofClauses resourceClass clauses = .ok a)
      (hscope : c.top.constrain c.model a = .ok s') : Origin c s'
  | called {name : String} {args : List Argument} {entry : ModelEntry}
      (hentry : c.model.resolve .instruction name args.length = .ok entry) :
      Origin c (c.top.push (.call ⟨⟨.instruction, entry.name, args⟩, none⟩))
  | attached {front : List (Node StreamAccess)} {call : Call} {situation : Situation}
      (hchildren : c.top.children = front ++ [.call call]) :
      Origin c
        { c.top with children := front ++ [.call { call with situation := some situation }] }
  | placed {n : Node StreamAccess} (hfresh : n.Fresh) (hcall : n.call? = none) :
      Origin c (c.top.push n)
  | accessed (stream : StreamId) (part : StreamPart) :
      Origin c (c.top.reserve.push (.access ⟨stream, part, c.top.nextId⟩))

theorem Origin.holds {c : Context} (h : s.Origin c) (hscopes : ∀ s ∈ c.allScopes, s.Holds P)
    (hclosed : ∀ inner ∈ c.scopes, inner.block.checkCover = .ok () → P inner.block) :
    s.Holds P := by
  have htop := hscopes c.top c.top_mem
  cases h with
  | kept hs => exact hscopes _ hs
  | reserved => exact htop
  | opened kind requested => exact holds_nil rfl
  | @closed inner outer hinner houter hcover =>
      have hinside := hscopes inner (List.mem_append_right _ hinner)
      exact (hscopes outer houter).close hinside (hclosed inner hinner hcover)
  | covered _ => exact htop
  | constraining _ => exact htop
  | constrained _ _ hscope =>
      rcases Scope.constrain_eq_ok.mp hscope with ⟨_, _, rfl⟩
      exact htop
  | called _ => exact htop.congr ((block_push _ _).trans (List.append_nil _))
  | attached hchildren =>
      apply htop.congr
      rw [block_blocks, block_blocks, hchildren, List.filterMap_append, List.filterMap_append]
      rfl
  | @placed n hfresh _ =>
      have hnone : n.block? = none := by
        cases n with
        | block head children => cases hfresh
        | _ => rfl
      apply htop.congr
      rw [block_push, hnone]
      exact List.append_nil _
  | accessed stream part => exact htop.congr ((block_push c.top.reserve _).trans (List.append_nil _))

end Scope

namespace Context

variable {c next : Context} {command : Command} {outcome : Except Refusal Reply} {s : Scope}

theorem origin_modifyTop {f : Scope → Scope} (hf : (f c.top).Origin c)
    (hs : s ∈ (c.modifyTop f).allScopes) : s.Origin c := by
  rcases mem_allScopes_modifyTop hs with rfl | hold
  · exact hf
  · exact .kept hold

theorem origin_replace {t t' : Scope} {rest : List Scope} (hscopes : c.scopes = t :: rest)
    (ht : t'.Origin c) (hs : s ∈ ({ c with scopes := t' :: rest } : Context).allScopes) :
    s.Origin c := by
  rcases (mem_allScopes_cons rfl).mp hs with rfl | hrest
  · exact ht
  · exact .kept ((mem_allScopes_cons hscopes).mpr (Or.inr hrest))

theorem origin_of_step (h : Step c command outcome next) (hs : s ∈ next.allScopes) :
    s.Origin c := by
  cases h with
  | refused => exact .kept hs
  | dropped hscopes => exact .kept ((mem_allScopes_cons hscopes).mpr (Or.inr hs))
  | answered _ => exact .kept hs
  | advanced _ _ _ => exact .kept hs
  | opened =>
      rcases (mem_allScopes_cons rfl).mp hs with rfl | hrest
      · exact .opened _ _
      · exact origin_modifyTop .reserved hrest
  | @closed t rest hscopes _ hcover =>
      have hold : ∀ o ∈ ({ c with scopes := rest } : Context).allScopes, o ∈ c.allScopes :=
        fun o ho => (mem_allScopes_cons hscopes).mpr (Or.inr ho)
      rcases mem_allScopes_modifyTop hs with rfl | hrest
      · exact .closed (by simp [hscopes]) (hold _ (top_mem _)) hcover
      · exact .kept (hold _ hrest)
  | covered hscopes _ =>
      rw [← top_cons hscopes] at hs
      exact origin_replace hscopes (.covered _) hs
  | unknownIssued => exact .kept hs
  | lazyIssued => exact .kept hs
  | called hentry => exact origin_modifyTop (.called hentry) hs
  | attached hchildren _ => exact origin_modifyTop (.attached hchildren) hs
  | @labelled name labels _ =>
      rcases mem_allScopes_modifyTop hs with rfl | hold
      · exact .placed (n := .label name) trivial rfl
      · exact .kept hold
  | @placed command node hleaf =>
      have hnode : node.Fresh ∧ node.call? = none := by
        cases command <;> cases hleaf <;> exact ⟨trivial, rfl⟩
      exact origin_modifyTop (.placed hnode.left hnode.right) hs
  | constraintOpened hscopes hsequence _ =>
      rw [← top_cons hscopes] at hs hsequence
      exact origin_replace hscopes (.constraining fun _ => hsequence) hs
  | constraintClosed hscopes _ =>
      rw [← top_cons hscopes] at hs
      exact origin_replace hscopes (.constraining (by simp)) hs
  | constrained hscopes hconstraining hclauses hscope =>
      rw [← top_cons hscopes] at hconstraining hscope
      exact origin_replace hscopes (.constrained hconstraining hclauses hscope) hs
  | streamPrepared _ => exact .kept hs
  | registerPrepared _ => exact .kept hs
  | @streamBound label data index length stream streams _ =>
      rcases mem_allScopes_modifyTop hs with rfl | hold
      · exact .accessed stream.id .init
      · exact .kept hold
  | @streamAccessed command label part stream _ _ =>
      exact origin_modifyTop (.accessed stream.id part) hs
  | dataPerformed _ _ => exact .kept hs
  | dataLabelled _ _ => exact .kept hs
  | optionSet _ => exact .kept hs

/-!
# Runs
-/

theorem run_scopes {R : Scope → Prop} {name : String} {model : Model} {options : Options}
    {comments : CommentTokens} (hroots : ∀ p, R (Scope.phaseRoot p))
    (hstep : ∀ c : Context, c.model = model → (∀ s ∈ c.allScopes, R s) →
      ∀ s, s.Origin c → R s)
    (commands : List Command) :
    ∀ s ∈ ((start name model options comments).run commands).allScopes, R s := by
  apply And.right
  apply run_invariant (I := fun c => c.model = model ∧ ∀ s ∈ c.allScopes, R s)
  · intro c command outcome next hbefore hnext
    rcases hbefore with ⟨hmodel, hscopes⟩
    refine ⟨?_, ?_⟩
    · rw [← hmodel]
      exact model_of_step hnext
    · intro s hs
      exact hstep c hmodel hscopes s (origin_of_step hnext hs)
  · refine ⟨rfl, ?_⟩
    intro s hs
    rcases List.mem_append.mp hs with hroot | hopen
    · rcases PhaseTable.mem_toList.mp hroot with ⟨p, rfl⟩
      cases p with
      | pre => exact hroots .pre
      | run => exact hroots .run
      | post => exact hroots .post
    · cases hopen

/-- What all scopes have that are at the start or come about in a step, all blocks have
that a run builds. -/
theorem run_blocks {R : Scope → Prop} {P : Block StreamAccess → Prop}
    (hblock : ∀ s, R s → P s.block) {name : String} {model : Model} {options : Options}
    {comments : CommentTokens} (hroots : ∀ p, R (Scope.phaseRoot p))
    (hstep : ∀ c : Context, c.model = model → (∀ s ∈ c.allScopes, R s) →
      ∀ s, s.Origin c → R s)
    (commands : List Command) :
    ∀ s ∈ ((start name model options comments).run commands).allScopes,
      ∀ e ∈ s.block.allBlocks, P e := by
  have hscopes : ∀ s ∈ ((start name model options comments).run commands).allScopes,
      R s ∧ s.Holds P := by
    apply run_scopes (R := fun s => R s ∧ s.Holds P)
    · intro p
      exact ⟨hroots p, Scope.holds_nil rfl⟩
    · intro c hmodel hbefore s horigin
      refine ⟨hstep c hmodel (fun s hs => (hbefore s hs).left) s horigin, ?_⟩
      apply horigin.holds fun s hs => (hbefore s hs).right
      intro inner hinner _
      exact hblock inner (hbefore inner (List.mem_append_right _ hinner)).left
  intro s hs
  exact (hscopes s hs).right.allBlocks (hblock s (hscopes s hs).left)

end Context
end Stimulus
