import Stimulus.Proofs.LostScopes

/-!
# Opened blocks

## Scopes that go on

Only the beginning of a block makes a new scope.  Every other scope goes on: it stands
for the same block, with the attributes that this was opened with, and takes no index
back that it has given out.

## Identities

No identity is given out a second time.  So of the commands of a run at most one has
opened the block with a given identity.
-/

namespace Stimulus

/-!
# Scopes that go on
-/

namespace Scope

variable {s s' o : Scope} {added : List LabelDeclaration}

structure Continues (s o : Scope) : Prop where
  id_eq : s.head.id = o.head.id
  attributes_eq : s.head.attributes = o.head.attributes
  issued_le : o.issued ≤ s.issued

theorem Continues.refl (s : Scope) : s.Continues s :=
  ⟨rfl, rfl, Nat.le_refl _⟩

theorem Change.continues (h : s.Change s' added) : s'.Continues s := by
  cases h with
  | constrained hscope =>
      rcases Scope.constrain_eq_ok.mp hscope with ⟨_, _, rfl⟩
      exact ⟨rfl, rfl, Nat.le_refl _⟩
  | accessed stream part => exact ⟨rfl, rfl, Nat.le_succ _⟩
  | _ => exact ⟨rfl, rfl, Nat.le_refl _⟩

end Scope

namespace Context

variable {c next : Context} {command : Command} {outcome : Except Refusal Reply} {s : Scope}

theorem length_modifyTop (c : Context) (f : Scope → Scope) :
    (c.modifyTop f).scopes.length = c.scopes.length := by
  cases hscopes : c.scopes with
  | nil =>
      rw [modifyTop_nil hscopes, hscopes]
  | cons s rest =>
      rw [modifyTop_cons hscopes, List.length_cons, List.length_cons]

theorem opens_or_length (h : Step c command outcome next) :
    (∃ kind requested, command = .openBlock kind requested ∧
      outcome = .ok (.block c.top.nextId) ∧
      next = { c.modifyTop Scope.reserve with
        scopes := c.top.nested kind requested :: (c.modifyTop Scope.reserve).scopes }) ∨
      next.scopes.length ≤ c.scopes.length := by
  cases h with
  | opened => exact Or.inl ⟨_, _, rfl, rfl, rfl⟩
  | _ =>
      right
      simp_all [push, access, length_modifyTop]

theorem continues_modifyTop {f : Scope → Scope} (hf : (f c.top).Continues c.top)
    (hs : s ∈ (c.modifyTop f).allScopes) : ∃ o ∈ c.allScopes, s.Continues o := by
  rcases mem_allScopes_modifyTop hs with rfl | hold
  · exact ⟨c.top, c.top_mem, hf⟩
  · exact ⟨s, hold, .refl s⟩

theorem continues_of_treeStep (h : TreeStep c next) (hlength : next.scopes.length ≤ c.scopes.length)
    (hs : s ∈ next.allScopes) : ∃ o ∈ c.allScopes, s.Continues o := by
  cases h with
  | kept htrees _ =>
      rw [htrees.allScopes] at hs
      exact ⟨s, hs, .refl s⟩
  | advanced hscopes hnext hroots _ =>
      rw [allScopes_congr hroots (hnext.trans hscopes.symm)] at hs
      exact ⟨s, hs, .refl s⟩
  | changed hchange htrees _ =>
      rw [htrees.allScopes] at hs
      exact continues_modifyTop hchange.continues hs
  | opened hnext =>
      rw [hnext, List.length_cons, length_modifyTop] at hlength
      exact absurd hlength (Nat.not_succ_le_self _)
  | closed hscopes _ _ hnext =>
      rw [hnext] at hs
      rcases continues_modifyTop (f := fun s' => s'.push _) ⟨rfl, rfl, Nat.le_refl _⟩ hs with
        ⟨o, ho, hso⟩
      exact ⟨o, (mem_allScopes_cons hscopes).mpr (Or.inr ho), hso⟩

theorem continues_or_opens (h : Step c command outcome next) (hs : s ∈ next.allScopes) :
    (∃ o ∈ c.allScopes, s.Continues o) ∨
      ∃ kind requested, command = .openBlock kind requested ∧
        outcome = .ok (.block c.top.nextId) ∧ s = c.top.nested kind requested := by
  rcases opens_or_length h with ⟨kind, requested, hcommand, houtcome, hnext⟩ | hlength
  · rw [hnext] at hs
    rcases (mem_allScopes_cons rfl).mp hs with rfl | hrest
    · exact Or.inr ⟨kind, requested, hcommand, houtcome, rfl⟩
    · left
      exact continues_modifyTop (f := Scope.reserve) ⟨rfl, rfl, Nat.le_succ _⟩ hrest
  · left
    rcases h.tree with htree | ⟨inner, rest, _, hscopes, _, _, hnext⟩
    · exact continues_of_treeStep htree hlength hs
    · rw [hnext] at hs
      exact ⟨s, (mem_allScopes_cons hscopes).mpr (Or.inr hs), .refl s⟩

/-!
# Identities that were given out
-/

/-- No identity that a scope has still to give out is that of the block `id` or of a block
around it. -/
def GivenOut (id : BlockId) (c : Context) : Prop :=
  ∀ s ∈ c.allScopes, ∀ i, s.issued ≤ i → ¬ (s.head.id.child i).encloses id = true

namespace GivenOut

variable {id : BlockId}

theorem ne_nextId (h : GivenOut id c) : c.top.nextId ≠ id := by
  intro hsame
  apply h c.top c.top_mem c.top.issued (Nat.le_refl _)
  rw [← hsame]
  exact BlockId.encloses_refl _

theorem step (h : GivenOut id c) (hstep : Step c command outcome next) : GivenOut id next := by
  intro s hs i hi
  rcases continues_or_opens hstep hs with ⟨o, ho, hso⟩ | ⟨kind, requested, _, _, rfl⟩
  · rw [hso.id_eq]
    exact h o ho i (Nat.le_trans hso.issued_le hi)
  · intro hencloses
    exact h c.top c.top_mem c.top.issued (Nat.le_refl _)
      (BlockId.encloses_trans (BlockId.encloses_child _ i) hencloses)

theorem run (h : GivenOut id c) (commands : List Command) : GivenOut id (c.run commands) :=
  run_invariant (fun _ _ _ _ hbefore hstep => hbefore.step hstep) h commands

theorem opened (hrooted : Rooted next) (hindexed : Indexed (fun _ => []) next) {inner : Scope}
    {rest : List Scope} (hscopes : next.scopes = inner :: rest) :
    GivenOut inner.head.id next := by
  have hothers := avoids_of_drop hrooted hindexed hscopes
  intro s hs i hi
  rcases (mem_allScopes_cons hscopes).mp hs with rfl | hrest
  · intro hencloses
    exact BlockId.ne_of_lt (BlockId.lt_of_encloses_child hencloses) rfl
  · exact (hothers s hrest).later i hi

end GivenOut

/-!
# Runs
-/

section

variable {commands before after : List Command} {id : BlockId} {kind kind' : ScopeKind}
variable {requested requested' : BlockAttributes}

/-- The block with the identity `id` was opened with the attributes `requested`. -/
def OpenedWith (c : Context) (commands : List Command) (id : BlockId)
    (requested : BlockAttributes) : Prop :=
  ∃ before kind, c.Accepted commands before (.openBlock kind requested) (.block id)

theorem OpenedWith.concat (h : c.OpenedWith commands id requested) (last : Command) :
    c.OpenedWith (commands ++ [last]) id requested := by
  rcases h with ⟨before, kind, haccepted⟩
  exact ⟨before, kind, haccepted.concat last⟩

theorem openBlock_eq {reply : Reply}
    (h : (c.perform (.openBlock kind requested)).1 = .ok reply) : reply = .block c.top.nextId := by
  cases h
  rfl

variable {name : String} {model : Model} {options : Options} {comments : CommentTokens}

theorem not_reopened
    (hearlier : (((start name model options comments).run before).perform
      (.openBlock kind requested)).1 = .ok (.block id)) :
    (((start name model options comments).run
      (before ++ .openBlock kind requested :: after)).perform
        (.openBlock kind' requested')).1 ≠ .ok (.block id) := by
  intro hlater
  have hrooted := run_rooted (Rooted.start name model options comments)
    (before ++ [.openBlock kind requested])
  have hindexed : Indexed (fun _ => []) ((start name model options comments).run
      (before ++ [.openBlock kind requested])) :=
    run_indexed (Indexed.initially name model options comments) _
  rw [run_concat] at hrooted hindexed
  cases openBlock_eq hearlier
  have hgiven := (GivenOut.opened hrooted hindexed rfl).run after
  rw [run_append, run_cons] at hlater
  have hid := Reply.block.inj (openBlock_eq hlater)
  exact hgiven.ne_nextId hid.symm

theorem OpenedWith.unique
    (h : (start name model options comments).OpenedWith commands id requested)
    (h' : (start name model options comments).OpenedWith commands id requested') :
    requested = requested' := by
  rcases h with ⟨before, kind, after, hcommands, hreply⟩
  rcases h' with ⟨before', kind', after', hcommands', hreply'⟩
  rw [hcommands] at hcommands'
  rcases List.append_eq_append_iff.mp hcommands' with ⟨mid, rfl, hmid⟩ | ⟨mid, rfl, hmid⟩
  · cases mid with
    | nil =>
        cases hmid
        rfl
    | cons first mid =>
        cases hmid
        exact absurd hreply' (not_reopened hreply)
  · cases mid with
    | nil =>
        cases hmid
        rfl
    | cons first mid =>
        cases hmid
        exact absurd hreply (not_reopened hreply')

end

end Context
end Stimulus
