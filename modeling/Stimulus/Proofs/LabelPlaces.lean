import Stimulus.Proofs.BlockIndices
import Stimulus.Proofs.LabelScopes
import Stimulus.Proofs.ReplayOrder
import Stimulus.Proofs.SealedBindings

/-!
# Places of code labels

## Labels of a tree

The labels that stand in a tree, with the blocks and the positions at which they
stand, are declarations of code labels.

## Correspondence

While no block is lost, the code labels that a build has declared are the labels of
its trees.  Since no two blocks share an identity, a declaration and a label of the
sealed tree determine each other.
-/

namespace Stimulus

private theorem filter_eq_singleton {α β : Type} [DecidableEq β] {f : α → β} {l : List α}
    {a : α} (hnodup : (l.map f).Nodup) (ha : a ∈ l) : (l.filter fun x => f x == f a) = [a] := by
  rcases List.append_of_mem ha with ⟨front, back, rfl⟩
  have hfront : ∀ x ∈ front, f x ≠ f a := by
    intro x hx hsame
    rw [List.map_append, List.nodup_append] at hnodup
    exact hnodup.right.right _ (List.mem_map_of_mem hx) _
      (List.mem_map_of_mem List.mem_cons_self) hsame
  have hback : ∀ x ∈ back, f x ≠ f a := by
    intro x hx hsame
    rw [List.map_append, List.nodup_append, List.map_cons, List.nodup_cons] at hnodup
    apply hnodup.right.left.left
    rw [← hsame]
    exact List.mem_map_of_mem hx
  rw [List.filter_append, List.filter_cons_of_pos (by simp),
    List.filter_eq_nil_iff.mpr (by simpa using hfront),
    List.filter_eq_nil_iff.mpr (by simpa using hback)]
  rfl

/-!
# Labels of a block
-/

namespace Block

variable {α : Type} {b : Block α}

def labels (b : Block α) : List LabelDeclaration :=
  b.children.zipIdx.flatMap fun entry => entry.1.declared b.head.id entry.2

theorem mem_labels {e : LabelDeclaration} :
    e ∈ b.labels ↔ ∃ position name, b.children[position]? = some (.label name) ∧
      e = ⟨name, b.head.id, .code b.head.id position⟩ := by
  rw [labels, List.mem_flatMap]
  constructor
  · intro h
    rcases h with ⟨⟨n, position⟩, hn, he⟩
    rw [List.mem_zipIdx_iff_getElem?] at hn
    cases n with
    | label name => exact ⟨position, name, hn, List.mem_singleton.mp he⟩
    | _ => cases he
  · intro h
    rcases h with ⟨position, name, hn, rfl⟩
    exact ⟨(.label name, position), List.mem_zipIdx_iff_getElem?.mpr hn, List.mem_singleton_self _⟩

theorem labels_push (head : BlockHead) (children : List (Node α)) (n : Node α) :
    (Block.mk head (children ++ [n])).labels =
      (Block.mk head children).labels ++ n.declared head.id children.length := by
  simp [labels, List.zipIdx_append]

theorem nodup_places (b : Block α) : (b.labels.map LabelDeclaration.place).Nodup := by
  have hpositions : b.children.zipIdx.Pairwise fun x y => x.2 ≠ y.2 := by
    have hrange : (b.children.zipIdx.map Prod.snd).Nodup := by
      rw [List.zipIdx_map_snd]
      exact List.nodup_range'
    exact List.pairwise_map.mp hrange
  rw [labels, List.map_flatMap, List.Nodup, List.pairwise_flatMap]
  constructor
  · intro entry _
    rcases entry with ⟨n, position⟩
    cases n <;> simp [Node.declared]
  · apply hpositions.imp
    intro x y hne p hp q hq hsame
    rcases x with ⟨n, i⟩
    rcases y with ⟨m, j⟩
    cases n with
    | label name =>
        cases m with
        | label other =>
            simp only [Node.declared, List.map_cons, List.map_nil, List.mem_singleton] at hp hq
            rw [hp, hq] at hsame
            exact hne (LabelPlace.code.inj hsame).right
        | _ => cases hq
    | _ => cases hp

theorem nodup_allPlaces {blocks : List (Block α)}
    (h : (blocks.map fun b => b.head.id).Nodup) :
    ((blocks.flatMap labels).map LabelDeclaration.place).Nodup := by
  rw [List.map_flatMap, List.Nodup, List.pairwise_flatMap]
  refine ⟨fun b _ => b.nodup_places, ?_⟩
  apply (List.pairwise_map.mp h).imp
  intro b d hne p hp q hq hsame
  rcases List.mem_map.mp hp with ⟨e, he, rfl⟩
  rcases List.mem_map.mp hq with ⟨e', he', hplace⟩
  rcases mem_labels.mp he with ⟨_, _, _, rfl⟩
  rcases mem_labels.mp he' with ⟨_, _, _, rfl⟩
  rw [← hplace] at hsame
  exact hne (LabelPlace.code.inj hsame).left

end Block

/-!
# Labels of a scope
-/

theorem Node.declared_unrolled (calls : StreamAccess → List Primitive) (parent : BlockId)
    (position : Nat) (n : Node StreamAccess) : (n.unrolled calls).declared parent position =
      n.declared parent position := by
  cases n <;> rfl

theorem Node.allBlocks_eq {α : Type} (n : Node α) :
    n.block?.toList.flatMap Block.allBlocks = n.allBlocks := by
  cases n with
  | block head children => exact List.append_nil _
  | _ => rfl

theorem StreamAccess.labels_unrolled (a : StreamAccess) (calls : List Primitive) :
    (a.unrolled calls).allBlocks.flatMap Block.labels = [] := by
  rw [← Node.allBlocks_eq]
  cases hblock : (a.unrolled calls).block? with
  | none => rfl
  | some b =>
      have hblocks := (a.blocks_unrolled calls hblock).right
      have hlabels : b.labels = [] := by
        cases hblock
        rw [Block.labels, List.flatMap_eq_nil_iff]
        intro entry hentry
        rcases List.mem_map.mp (List.fst_mem_of_mem_zipIdx hentry) with ⟨p, _, hcall⟩
        rw [← hcall]
        rfl
      simp [Block.allBlocks_eq, hblocks, hlabels]

namespace Scope

variable {calls : StreamAccess → List Primitive} {s s' : Scope} {added : List LabelDeclaration}

def labels (calls : StreamAccess → List Primitive) (s : Scope) : List LabelDeclaration :=
  (s.unrolled calls).allBlocks.flatMap Block.labels

theorem unrolled_push (calls : StreamAccess → List Primitive) (s : Scope) (n : Node StreamAccess) :
    (s.push n).unrolled calls = ⟨s.head, (s.unrolled calls).children ++ [n.unrolled calls]⟩ := by
  unfold unrolled Block.unrolled
  rw [Node.unrolledAll_eq, Node.unrolledAll_eq, block, push, List.map_append]
  rfl

theorem length_unrolled (calls : StreamAccess → List Primitive) (s : Scope) :
    (s.unrolled calls).children.length = s.children.length := by
  unfold unrolled Block.unrolled
  rw [Node.unrolledAll_eq, List.length_map]
  rfl

theorem labels_push (calls : StreamAccess → List Primitive) (s : Scope) (n : Node StreamAccess) :
    ((s.push n).labels calls).Perm
      (s.labels calls ++ (n.declared s.head.id s.children.length ++
        (n.unrolled calls).allBlocks.flatMap Block.labels)) := by
  have hown : ((s.push n).unrolled calls).labels =
      (s.unrolled calls).labels ++ n.declared s.head.id s.children.length := by
    rw [unrolled_push, Block.labels_push, length_unrolled, Node.declared_unrolled]
    rfl
  unfold labels
  rw [Block.allBlocks_eq, Block.allBlocks_eq (s.unrolled calls), blocks_push, List.flatMap_append,
    Node.allBlocks_eq, List.flatMap_cons, List.flatMap_cons, List.flatMap_append, hown,
    List.append_assoc, List.append_assoc]
  apply List.Perm.append_left
  rw [← List.append_assoc, ← List.append_assoc]
  exact List.Perm.append_right _ List.perm_append_comm

theorem labels_close (calls : StreamAccess → List Primitive) (inner outer : Scope) :
    ((outer.push inner.block.toNode).labels calls).Perm
      (outer.labels calls ++ inner.labels calls) :=
  labels_push calls outer inner.block.toNode

theorem labels_congr (hid : s'.head.id = s.head.id) (hchildren : s'.children = s.children) :
    s'.labels calls = s.labels calls := by
  have hblocks : (s'.unrolled calls).blocks = (s.unrolled calls).blocks := by
    rw [blocks_unrolled, blocks_unrolled, hchildren]
  have hown : (s'.unrolled calls).labels = (s.unrolled calls).labels := by
    simp only [unrolled, Block.unrolled, Block.labels, block, hid, hchildren]
  rw [labels, labels, Block.allBlocks_eq, Block.allBlocks_eq (s.unrolled calls), hblocks,
    List.flatMap_cons, List.flatMap_cons, hown]

theorem Change.labels (h : s.Change s' added) :
    (s'.labels calls).Perm (s.labels calls ++ added) := by
  cases h with
  | covered _ => simp [labels_congr (s := s)]
  | constraining _ => simp [labels_congr (s := s)]
  | constrained hscope =>
      rcases Scope.constrain_eq_ok.mp hscope with ⟨_, _, rfl⟩
      simp [labels_congr (s := s)]
  | @attached front call situation hchildren _ =>
      let shorter : Scope := { s with children := front }
      have hold : s = shorter.push (.call call) := by
        rw [push, ← hchildren]
      have hpushed : ∀ c : Call, ((shorter.push (.call c)).labels calls).Perm
          (shorter.labels calls) := by
        intro c
        simpa [Node.declared, Node.unrolled, Node.allBlocks] using
          labels_push calls shorter (.call c)
      rw [List.append_nil]
      have hback := (hpushed call).symm
      rw [← hold] at hback
      exact (hpushed { call with situation := some situation }).trans hback
  | @pushed n hfresh =>
      have hnone : (n.unrolled calls).allBlocks = [] := by
        rw [← Node.allBlocks_eq, Node.block?_unrolled_fresh hfresh]
        rfl
      have hpush := labels_push calls s n
      rw [hnone] at hpush
      simpa using hpush
  | accessed stream part =>
      have hpush := labels_push calls s.reserve (.access ⟨stream, part, s.nextId⟩)
      let a : StreamAccess := ⟨stream, part, s.nextId⟩
      have hnone := a.labels_unrolled (calls a)
      unfold Node.unrolled at hpush
      rw [hnone] at hpush
      exact hpush

end Scope

/-!
# Labels of a context
-/

namespace Context

variable {calls : StreamAccess → List Primitive} {c next : Context} {command : Command}
variable {outcome : Except Refusal Reply} {commands : List Command}

def treeLabels (calls : StreamAccess → List Primitive) (c : Context) : List LabelDeclaration :=
  c.allScopes.flatMap (Scope.labels calls)

theorem treeLabels_modifyTop {f : Scope → Scope} {added : List LabelDeclaration}
    (h : ((f c.top).labels calls).Perm (c.top.labels calls ++ added)) :
    ((c.modifyTop f).treeLabels calls).Perm (c.treeLabels calls ++ added) := by
  rcases c.allScopes_modifyTop with ⟨front, back, hold, hnew⟩
  rw [treeLabels, treeLabels, hold, hnew, List.flatMap_append, List.flatMap_append,
    List.flatMap_cons, List.flatMap_cons, List.append_assoc, List.append_assoc]
  apply List.Perm.append_left
  refine (h.append_right _).trans ?_
  rw [List.append_assoc]
  exact List.Perm.append_left _ List.perm_append_comm

theorem treeLabels_cons {s : Scope} {rest : List Scope} (hscopes : c.scopes = s :: rest) :
    (c.treeLabels calls).Perm
      (({ c with scopes := rest } : Context).treeLabels calls ++ s.labels calls) := by
  unfold treeLabels allScopes
  rw [hscopes, List.flatMap_append, List.flatMap_append, List.flatMap_cons, List.append_assoc]
  exact List.Perm.append_left _ List.perm_append_comm

theorem SameTrees.treeLabels (h : SameTrees next c) :
    next.treeLabels calls = c.treeLabels calls := by
  rw [Context.treeLabels, Context.treeLabels, h.allScopes]

/-- The code labels that were declared are those that stand in the trees. -/
def LabelsMatch (calls : StreamAccess → List Primitive) (c : Context) : Prop :=
  c.labels.code.Perm (c.treeLabels calls)

namespace LabelsMatch

theorem initially (name : String) (model : Model) (options : Options)
    (comments : CommentTokens) :
    LabelsMatch calls (Context.start name model options comments) :=
  List.Perm.refl _

theorem treeStep (h : LabelsMatch calls c) (hstep : TreeStep c next) :
    LabelsMatch calls next := by
  unfold LabelsMatch at h ⊢
  cases hstep with
  | kept htrees hlabels =>
      rw [hlabels, htrees.treeLabels]
      exact h
  | advanced hscopes hnext hroots hlabels =>
      rw [hlabels, treeLabels, allScopes_congr hroots (hnext.trans hscopes.symm)]
      exact h
  | changed hchange htrees hlabels =>
      rw [hlabels, htrees.treeLabels]
      exact (h.append_right _).trans (treeLabels_modifyTop hchange.labels).symm
  | @opened kind requested hnext =>
      have hempty : (c.top.nested kind requested).labels calls = [] := rfl
      have hreserved : ((c.modifyTop Scope.reserve).treeLabels calls).Perm
          (c.treeLabels calls ++ []) := by
        apply treeLabels_modifyTop
        rw [List.append_nil]
        exact List.Perm.of_eq (Scope.labels_congr rfl rfl)
      have hopened : (next.treeLabels calls).Perm
          ((c.modifyTop Scope.reserve).treeLabels calls ++
            (c.top.nested kind requested).labels calls) := by
        rw [hnext]
        exact treeLabels_cons rfl
      have hlabels : next.labels = c.labels := by
        simp [hnext]
      rw [List.append_nil] at hreserved
      rw [hempty, List.append_nil] at hopened
      rw [hlabels]
      exact h.trans (hopened.trans hreserved).symm
  | @closed s rest hscopes _ _ hnext =>
      have hclosed : (next.treeLabels calls).Perm
          (({ c with scopes := rest } : Context).treeLabels calls ++ s.labels calls) := by
        rw [hnext]
        exact treeLabels_modifyTop (Scope.labels_close calls s _)
      have hlabels : next.labels = c.labels := by
        simp [hnext, push]
      rw [hlabels]
      exact h.trans ((treeLabels_cons hscopes).trans hclosed.symm)

theorem step (h : LabelsMatch calls c) (hstep : Step c command outcome next)
    (hkeeps : c.Keeps command outcome) : LabelsMatch calls next := by
  rcases hstep.tree with htree | ⟨s, rest, cause, hscopes, hcommand, houtcome, _⟩
  · exact h.treeStep htree
  · rw [hkeeps cause hcommand houtcome] at hscopes
    cases hscopes

theorem run (h : LabelsMatch calls c) (hkeeps : c.keepsBlocks commands = true) :
    LabelsMatch calls (c.run commands) := by
  induction commands generalizing c with
  | nil =>
      exact h
  | cons command rest ih =>
      simp only [keepsBlocks, Bool.and_eq_true, Bool.not_eq_true'] at hkeeps
      rw [run_cons]
      exact ih (h.step (c.perform_step command) (keeps_of_dropsBlock hkeeps.left)) hkeeps.right

end LabelsMatch

theorem treeLabels_of_seal {t : SealedTemplate} (h : c.seal = .ok t) :
    c.treeLabels c.callsOf = t.blocks.flatMap Block.labels := by
  rw [treeLabels, blocks_of_seal h, List.flatMap_assoc]
  rfl

theorem resolve_of_lazy {t : SealedTemplate} (h : c.seal = .ok t) {index : Nat}
    {found : ResolvedLabel} (hfound : t.bindings.lazies.get? index = some found) :
    ∃ origin, t.labels.resolve found.label origin = .ok found.place := by
  rcases seal_eq_ok.mp h with ⟨_, _, phases, bindings, _, hbindings, rfl⟩
  rcases Sources.resolve_eq_ok.mp hbindings with ⟨st, hst, rfl⟩
  rcases ((BindingState.Binds.start _).steps hst).lazies.suits hfound with
    ⟨u, _, other, _, hresolved⟩
  rcases resolved_eq_ok.mp hresolved with ⟨request, _, hlabel, hplace⟩
  rw [← hlabel] at hplace
  exact ⟨request.origin, hplace⟩

end Context

/-!
# Places in a sealed template
-/

/-- The code labels of a sealed template and the labels that stand in its trees
determine each other. -/
structure LabelsInPlace (t : SealedTemplate) : Prop where
  placed : ∀ e ∈ t.labels.entries, ∀ id position, e.place = .code id position →
    e.scope = id ∧ ∃ b, (t.blocks.filter fun d => d.head.id == id) = [b] ∧
      b.children[position]? = some (.label e.name)
  declared : ∀ b ∈ t.blocks, ∀ position name, b.children[position]? = some (.label name) →
    (t.labels.entries.filter fun e => e.place == .code b.head.id position) =
      [⟨name, b.head.id, .code b.head.id position⟩]
  referred : ∀ index found id position, t.bindings.lazies.get? index = some found →
    found.place = .code id position →
      ∃ b ∈ t.blocks, b.head.id = id ∧ b.children[position]? = some (.label found.label)

section

variable {name : String} {model : Model} {options : Options} {comments : CommentTokens}
variable {commands : List Command} {t : SealedTemplate}

theorem labels_of_seal
    (hkeeps : (Context.start name model options comments).keepsBlocks commands = true)
    (h : ((Context.start name model options comments).run commands).seal = .ok t) :
    t.labels.code.Perm (t.blocks.flatMap Block.labels) := by
  rw [(Context.unrolled_of_seal h).right.right.left, ← Context.treeLabels_of_seal h]
  exact (Context.LabelsMatch.initially name model options comments).run hkeeps

/-- In a build that seals and loses no block, every code label stands where it was
declared. -/
theorem labelsInPlace_of_seal
    (hkeeps : (Context.start name model options comments).keepsBlocks commands = true)
    (h : ((Context.start name model options comments).run commands).seal = .ok t) :
    LabelsInPlace t := by
  have hids := nodup_of_seal h
  have hmatch := labels_of_seal hkeeps h
  have hplaced : ∀ e ∈ t.labels.entries, ∀ id position, e.place = .code id position →
      e.scope = id ∧ ∃ b ∈ t.blocks, b.head.id = id ∧
        b.children[position]? = some (.label e.name) := by
    intro e he id position hplace
    have hcode : e ∈ t.labels.code := List.mem_filter.mpr ⟨he, by rw [hplace]; rfl⟩
    rcases List.mem_flatMap.mp (hmatch.mem_iff.mp hcode) with ⟨b, hb, heb⟩
    rcases Block.mem_labels.mp heb with ⟨_, _, hchild, rfl⟩
    cases hplace
    exact ⟨rfl, b, hb, rfl, hchild⟩
  refine ⟨?_, ?_, ?_⟩
  · intro e he id position hplace
    rcases hplaced e he id position hplace with ⟨hscope, b, hb, rfl, hchild⟩
    exact ⟨hscope, b, filter_eq_singleton hids hb, hchild⟩
  · intro b hb position label hchild
    have he : (⟨label, b.head.id, .code b.head.id position⟩ : LabelDeclaration) ∈ t.labels.code :=
      hmatch.mem_iff.mpr (List.mem_flatMap.mpr
        ⟨b, hb, Block.mem_labels.mpr ⟨position, label, hchild, rfl⟩⟩)
    have hplaces : (t.labels.code.map LabelDeclaration.place).Nodup :=
      (hmatch.map LabelDeclaration.place).nodup_iff.mpr (Block.nodup_allPlaces hids)
    rw [← filter_eq_singleton hplaces he, Labels.code, List.filter_filter]
    apply List.filter_congr
    intro e _
    by_cases hplace : e.place = .code b.head.id position
    · simp [hplace, LabelPlace.address?]
    · simp [hplace]
  · intro index found id position hfound hplace
    rcases Context.resolve_of_lazy h hfound with ⟨origin, hresolve⟩
    rcases Labels.mem_of_resolve hresolve with ⟨e, he, hname, hsame⟩
    rw [← hname]
    exact (hplaced e he id position (hsame.trans hplace)).right

end

theorem labelsInPlace_of_seal_sample :
    ∃ t, SampleBuild.start.keepsBlocks
        (SampleBuild.commands ++ [.openBlock .plain {}, .label "inner", .closeBlock]) = true ∧
      (SampleBuild.start.run
        (SampleBuild.commands ++ [.openBlock .plain {}, .label "inner", .closeBlock])).seal =
          .ok t ∧
      t.labels.entries.map LabelDeclaration.place =
        [.data 0, .code ⟨[1]⟩ 3, .code ⟨[1, 1]⟩ 0] ∧ LabelsInPlace t := by
  have hkeeps : SampleBuild.start.keepsBlocks
      (SampleBuild.commands ++ [.openBlock .plain {}, .label "inner", .closeBlock]) = true := by
    decide +kernel
  have hplaces :
      ((SampleBuild.start.run (SampleBuild.commands ++
        [.openBlock .plain {}, .label "inner", .closeBlock])).seal.toOption.map
          fun t => t.labels.entries.map LabelDeclaration.place) =
        some [.data 0, .code ⟨[1]⟩ 3, .code ⟨[1, 1]⟩ 0] := by
    decide +kernel
  rcases Option.map_eq_some_iff.mp hplaces with ⟨t, hsome, hentries⟩
  have ht := Checked.toOption_eq_some.mp hsome
  exact ⟨t, hkeeps, ht, hentries, labelsInPlace_of_seal hkeeps ht⟩

end Stimulus
