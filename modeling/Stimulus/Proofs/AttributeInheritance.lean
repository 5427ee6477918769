import Mathlib.Data.List.Forall2
import Stimulus.Proofs.BlockPositions
import Stimulus.Proofs.Insertions
import Stimulus.Proofs.OpenedBlocks

/-!
# Inheritance of attributes

## Requests along a path

A block takes over what the block around it has, and that has taken it over in turn.  In
the end the last request along the path counts, for the combinator, for the compositor
and for every key, while the keys stand in the order in which they were requested first.

## Sealed trees

Every block that a user opened has what was requested along the path to it from the root
of its phase.  No other block of the build has a part in that.
-/

namespace Stimulus

/-!
# Combined requests
-/

namespace BlockAttributes

def combined (requests : List BlockAttributes) : BlockAttributes :=
  requests.foldl (fun outer requested => requested.inherit outer) {}

theorem combined_concat (requests : List BlockAttributes) (requested : BlockAttributes) :
    combined (requests ++ [requested]) = requested.inherit (combined requests) := by
  simp [combined]

/-- The last of the requests counts in `a`, part by part. -/
structure Combines (requests : List BlockAttributes) (a : BlockAttributes) : Prop where
  combinator : a.combinator = (requests.filterMap fun r => r.combinator).getLast?
  compositor : a.compositor = (requests.filterMap fun r => r.compositor).getLast?
  keys : a.attributes.keys = (requests.flatMap fun r => r.attributes.keys).eraseDups
  values : ∀ key,
    a.attributes.get? key = (requests.filterMap fun r => r.attributes.get? key).getLast?

theorem lastSet_combined {α : Type} {part : BlockAttributes → Option α} (hstart : part {} = none)
    (hpart : ∀ requested parent, part (requested.inherit parent) =
      (part requested).or (part parent)) (requests : List BlockAttributes) :
    part (combined requests) = (requests.filterMap part).getLast? := by
  induction requests using List.reverseRecOn with
  | nil =>
      exact hstart
  | append_singleton requests requested ih =>
      rw [combined_concat, hpart, ih, List.filterMap_append]
      cases hrequested : part requested with
      | none => simp [hrequested]
      | some value => simp [hrequested]

theorem attributes_combined (requests : List BlockAttributes) :
    (combined requests).attributes =
      .ofList (requests.flatMap fun r => r.attributes.entries) := by
  induction requests using List.reverseRecOn with
  | nil =>
      rfl
  | append_singleton requests requested ih =>
      rw [combined_concat, inherit, ih, OrderedMap.override_ofList, List.flatMap_append,
        List.flatMap_singleton]

theorem combines_combined (requests : List BlockAttributes) :
    Combines requests (combined requests) where
  combinator := lastSet_combined rfl (fun _ _ => rfl) requests
  compositor := lastSet_combined rfl (fun _ _ => rfl) requests
  keys := by
    rw [attributes_combined, OrderedMap.keys_ofList, List.map_flatMap]
    rfl
  values key := by
    rw [attributes_combined, OrderedMap.get?_ofList, OrderedMap.lastUnder?, ← List.getLast?_map,
      List.filter_flatMap, List.map_flatMap, List.filterMap_eq_flatMap_toList]
    simp only [OrderedMap.filter_entries]

end BlockAttributes

/-!
# Paths
-/

namespace Block

variable {α : Type} {root b d : Block α} {path : List (Block α)}

/-- The path leads from `root` to `b`, from each block to one that stands in it.  It ends
with `b`, and `root` is not on it. -/
inductive Path (root : Block α) : List (Block α) → Block α → Prop where
  | here : Path root [] root
  | inside {path : List (Block α)} {b d : Block α} (h : Path root path b) (hd : d ∈ b.blocks) :
      Path root (path ++ [d]) d

theorem Path.mem_allBlocks (h : root.Path path b) : b ∈ root.allBlocks := by
  induction h with
  | here => exact root.self_mem_allBlocks
  | inside _ hd ih =>
      exact mem_allBlocks_trans ih
        (Block.mem_allBlocks.mpr (Or.inr ⟨_, hd, Block.self_mem_allBlocks _⟩))

theorem Path.cons (hd : d ∈ root.blocks) (h : d.Path path b) : root.Path (d :: path) b := by
  induction h with
  | here => exact .inside .here hd
  | inside _ hin ih => exact ih.inside hin

theorem exists_path (hb : b ∈ root.allBlocks) : ∃ path, root.Path path b := by
  induction root using nesting with
  | step root ih =>
      rcases Block.mem_allBlocks.mp hb with rfl | ⟨d, hd, hbd⟩
      · exact ⟨[], .here⟩
      · rcases ih d hd hbd with ⟨path, hpath⟩
        exact ⟨d :: path, hpath.cons hd⟩

end Block

/-!
# Requests of open scopes
-/

theorem BlockId.child_eq_child {a b : BlockId} {i j : Nat} (h : a.child i = b.child j) :
    a = b ∧ i = j := by
  rcases a with ⟨path⟩
  rcases b with ⟨other⟩
  simpa [child] using h

namespace Context

/-- The block `id` was opened with the last of the requests, and the blocks around it were
opened with those before. -/
inductive OpenedAlong (c : Context) (commands : List Command) :
    BlockId → List BlockAttributes → Prop where
  | root (p : Phase) : OpenedAlong c commands (BlockId.root.child p.index) []
  | nested {id : BlockId} {i : Nat} {requests : List BlockAttributes}
      {requested : BlockAttributes} (houter : OpenedAlong c commands id requests)
      (hopened : c.OpenedWith commands (id.child i) requested) :
      OpenedAlong c commands (id.child i) (requests ++ [requested])

namespace OpenedAlong

variable {c : Context} {commands : List Command} {id : BlockId} {i : Nat}
variable {requests : List BlockAttributes}

theorem concat (h : OpenedAlong c commands id requests) (last : Command) :
    OpenedAlong c (commands ++ [last]) id requests := by
  induction h with
  | root p => exact .root p
  | nested _ hopened ih => exact .nested ih (hopened.concat last)

theorem ne_root (h : OpenedAlong c commands id requests) : id ≠ .root := by
  cases h with
  | root p => simp [BlockId.child, BlockId.root]
  | nested _ _ => simp [BlockId.child, BlockId.root]

theorem eq_nil (h : OpenedAlong c commands (BlockId.root.child i) requests) : requests = [] := by
  generalize hid : BlockId.root.child i = id at h
  cases h with
  | root p => rfl
  | nested houter _ => exact absurd (BlockId.child_eq_child hid).left.symm houter.ne_root

theorem of_child (hne : id ≠ .root) (h : OpenedAlong c commands (id.child i) requests) :
    ∃ front requested, requests = front ++ [requested] ∧ OpenedAlong c commands id front ∧
      c.OpenedWith commands (id.child i) requested := by
  generalize hid : id.child i = inner at h
  cases h with
  | root p => exact absurd (BlockId.child_eq_child hid).left hne
  | nested houter hopened =>
      rcases BlockId.child_eq_child hid with ⟨rfl, rfl⟩
      exact ⟨_, _, rfl, houter, hopened⟩

theorem along_path {α : Type} {root b : Block α} {path : List (Block α)} {p : Phase}
    (hroot : root.head.id = BlockId.root.child p.index)
    (hindexed : ∀ e ∈ root.allBlocks, e.Indexed) (hpath : root.Path path b)
    (h : OpenedAlong c commands b.head.id requests) :
    List.Forall₂ (fun d requested => c.OpenedWith commands d.head.id requested) path requests := by
  induction hpath generalizing requests with
  | here =>
      rw [hroot] at h
      rw [h.eq_nil]
      exact .nil
  | @inside path b d hpath hd ih =>
      rcases (hindexed b hpath.mem_allBlocks).index hd with ⟨i, hi⟩
      have hne : b.head.id ≠ .root := by
        have hbelow := Block.encloses_of_mem hindexed hpath.mem_allBlocks
        rw [hroot] at hbelow
        exact (BlockId.ne_of_lt (BlockId.lt_of_encloses_child hbelow)).symm
      rw [hi] at h
      rcases h.of_child hne with ⟨front, requested, rfl, houter, hopened⟩
      rw [← hi] at hopened
      exact List.rel_append (ih houter) (.cons hopened .nil)

end OpenedAlong

def Inherited (c : Context) (commands : List Command) (head : BlockHead) : Prop :=
  ∃ requests, OpenedAlong c commands head.id requests ∧
    head.attributes = BlockAttributes.combined requests

section

variable {c : Context} {commands : List Command} {head : BlockHead}

theorem Inherited.concat (h : c.Inherited commands head) (last : Command) :
    c.Inherited (commands ++ [last]) head := by
  rcases h with ⟨requests, hopened, hattributes⟩
  exact ⟨requests, hopened.concat last, hattributes⟩

theorem Inherited.continues {s o : Scope} (h : c.Inherited commands o.head)
    (hcontinues : s.Continues o) : c.Inherited commands s.head := by
  unfold Inherited
  rw [hcontinues.id_eq, hcontinues.attributes_eq]
  exact h

theorem Inherited.nested {s : Scope} (h : c.Inherited commands s.head) {kind : ScopeKind}
    {requested : BlockAttributes} (hopened : c.OpenedWith commands s.nextId requested) :
    c.Inherited commands (s.nested kind requested).head := by
  rcases h with ⟨requests, houter, hattributes⟩
  refine ⟨requests ++ [requested], .nested houter hopened, ?_⟩
  rw [BlockAttributes.combined_concat, ← hattributes]
  rfl

end

variable {name : String} {model : Model} {options : Options} {comments : CommentTokens}
variable {t : SealedTemplate}

theorem run_inherited (commands : List Command) :
    ∀ s ∈ ((start name model options comments).run commands).allScopes,
      (start name model options comments).Inherited commands s.head ∧
        s.Holds fun e => (start name model options comments).Inherited commands e.head := by
  induction commands using List.reverseRecOn with
  | nil =>
      intro s hs
      rcases List.mem_append.mp hs with hroot | hopen
      · rcases PhaseTable.mem_toList.mp hroot with ⟨p, rfl⟩
        cases p with
        | pre => exact ⟨⟨[], .root .pre, rfl⟩, Scope.holds_nil rfl⟩
        | run => exact ⟨⟨[], .root .run, rfl⟩, Scope.holds_nil rfl⟩
        | post => exact ⟨⟨[], .root .post, rfl⟩, Scope.holds_nil rfl⟩
      · cases hopen
  | append_singleton before command ih =>
      have hstep := step_last (start name model options comments) before command
      intro s hs
      constructor
      · rcases continues_or_opens hstep hs with ⟨o, ho, hso⟩ | ⟨kind, requested, rfl, hreply, rfl⟩
        · exact ((ih o ho).left.concat command).continues hso
        · exact ((ih _ (top_mem _)).left.concat _).nested
            ⟨before, kind, accepted_last hreply⟩
      · have hscopes : ∀ o ∈ ((start name model options comments).run before).allScopes,
            o.Holds fun e =>
              (start name model options comments).Inherited (before ++ [command]) e.head := by
          intro o ho d hd e he
          exact ((ih o ho).right d hd e he).concat command
        apply Scope.Origin.holds (origin_of_step hstep hs) hscopes
        intro inner hinner _
        exact (ih inner (List.mem_append_right _ hinner)).left.concat command

theorem inherited_of_seal {commands : List Command}
    (h : ((start name model options comments).run commands).seal = .ok t) {b : Block Empty}
    (hb : b ∈ t.blocks) (huser : b.OpenedByUser) :
    (start name model options comments).Inherited commands b.head := by
  rcases built_or_access_of_seal h hb with ⟨s, hs, e, he, rfl⟩ | ⟨a, _, hba⟩
  · rcases run_inherited commands s hs with ⟨hown, hinner⟩
    exact hinner.allBlocks hown e he
  · rcases huser with ⟨kind, hkind⟩
    rw [(Node.block.inj hba).left] at hkind
    cases hkind

end Context

/-!
# Sealed templates
-/

/-- The attributes of a block come from the requests along the path to it, and from
nothing else. -/
structure InheritsAttributes (c : Context) (commands : List Command) (t : SealedTemplate) :
    Prop where
  reached : ∀ b ∈ t.blocks, ∃ p path, (t.phases.get p).Path path b
  inherits : ∀ p path b, (t.phases.get p).Path path b → b.OpenedByUser →
    ∃ requests,
      (∀ other, List.Forall₂ (fun d requested => c.OpenedWith commands d.head.id requested)
        path other ↔ other = requests) ∧
      b.head.attributes = BlockAttributes.combined requests ∧
      BlockAttributes.Combines requests b.head.attributes

/-- In every template that a build seals to, the blocks have inherited along their paths. -/
theorem inheritsAttributes_of_seal {name : String} {model : Model} {options : Options}
    {comments : CommentTokens} {commands : List Command} {t : SealedTemplate}
    (h : ((Context.start name model options comments).run commands).seal = .ok t) :
    InheritsAttributes (Context.start name model options comments) commands t where
  reached b hb := by
    rcases List.mem_flatMap.mp hb with ⟨root, hroot, hbroot⟩
    rcases PhaseTable.mem_toList.mp hroot with ⟨p, rfl⟩
    exact ⟨p, Block.exists_path hbroot⟩
  inherits p path b hpath huser := by
    have hrooted := Context.run_rooted (Context.Rooted.start name model options comments) commands
    have hindexed : ∀ calls, Context.Indexed calls
        ((Context.start name model options comments).run commands) := fun _ =>
      Context.run_indexed (Context.Indexed.initially name model options comments) commands
    rcases Context.phase_of_seal hrooted (hindexed _) h p with ⟨hhead, hall⟩
    have hb : b ∈ t.blocks :=
      List.mem_flatMap.mpr ⟨_, PhaseTable.mem_toList.mpr ⟨p, rfl⟩, hpath.mem_allBlocks⟩
    rcases Context.inherited_of_seal h hb huser with ⟨requests, hopened, hattributes⟩
    have hrequests := hopened.along_path (congrArg BlockHead.id hhead) hall hpath
    refine ⟨requests, ?_, hattributes, ?_⟩
    · intro other
      constructor
      · intro hother
        exact List.right_unique_forall₂' (fun _ _ _ h h' => h.unique h') hother hrequests
      · intro hsame
        rw [hsame]
        exact hrequests
    · rw [hattributes]
      exact BlockAttributes.combines_combined requests

def SampleBuild.attributed : List Command :=
  [.openBlock .plain { combinator := some "permute" }, .closeBlock, .advanceTo .run,
    .openBlock .sequence
      { combinator := some "diagonal"
        attributes := .ofList [("weight", .int 1), ("group", .word "outer")] },
    .openBlock .plain { attributes := .ofList [("sibling", .flag true)] }, .closeBlock,
    .openBlock .atomic
      { compositor := some "rotate"
        attributes := .ofList [("limit", .int 2), ("weight", .int 3)] },
    .closeBlock, .closeBlock]

theorem inheritsAttributes_of_seal_sample :
    ∃ t, (SampleBuild.start.run SampleBuild.attributed).seal = .ok t ∧
      (t.blocks.map fun b =>
        (b.head.id.path, b.head.attributes.combinator, b.head.attributes.compositor,
          b.head.attributes.attributes.keys)) =
        [([0], none, none, []), ([0, 0], some "permute", none, []), ([1], none, none, []),
          ([1, 0], some "diagonal", none, ["weight", "group"]),
          ([1, 0, 0], some "diagonal", none, ["weight", "group", "sibling"]),
          ([1, 0, 1], some "diagonal", some "rotate", ["weight", "group", "limit"]),
          ([2], none, none, [])] ∧
      InheritsAttributes SampleBuild.start SampleBuild.attributed t := by
  have hblocks : ((SampleBuild.start.run SampleBuild.attributed).seal.toOption.map fun t =>
      t.blocks.map fun b =>
        (b.head.id.path, b.head.attributes.combinator, b.head.attributes.compositor,
          b.head.attributes.attributes.keys)) =
        some [([0], none, none, []), ([0, 0], some "permute", none, []), ([1], none, none, []),
          ([1, 0], some "diagonal", none, ["weight", "group"]),
          ([1, 0, 0], some "diagonal", none, ["weight", "group", "sibling"]),
          ([1, 0, 1], some "diagonal", some "rotate", ["weight", "group", "limit"]),
          ([2], none, none, [])] := by
    decide +kernel
  rcases Option.map_eq_some_iff.mp hblocks with ⟨t, hsome, hsample⟩
  have ht := Checked.toOption_eq_some.mp hsome
  exact ⟨t, ht, hsample, inheritsAttributes_of_seal ht⟩

end Stimulus
