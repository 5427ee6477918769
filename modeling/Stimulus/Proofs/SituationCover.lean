import Stimulus.Proofs.BlockKinds

/-!
# Cover of situations

## Closed blocks

When a block ends it is checked that its situation, if it has one, is the only one in
it.  Nothing changes a block after its end, and the calls of a stream access carry no
situations.  So every block of a sealed tree passes the check.

## Calls

On the way from the root of a phase to a call, the first block with a situation leaves
none to the blocks and to the call below it.  So what a replay reports for a call is all
that there is.
-/

namespace Stimulus

open Checked

def CallSite.situations (s : CallSite) : List Situation :=
  s.call.situation.toList ++ s.path.filterMap BlockHead.situation

theorem CallSite.situation?_eq (s : CallSite) : s.situation? = s.situations.head? := by
  have hpath : s.path.findSome? BlockHead.situation =
      (s.path.filterMap BlockHead.situation).head? := by
    rw [List.head?_filterMap]
  rw [situation?, situations, List.head?_append, hpath]
  cases s.call.situation <;> rfl

/-!
# What the check says
-/

section

variable {α : Type}

mutual

theorem Node.bare_of_checkUncovered : ∀ n : Node α, n.checkUncovered = .ok () →
    (∀ e ∈ n.allBlocks, e.head.situation = none) ∧
      ∀ path, ∀ s ∈ n.callSites path, s.situations = path.filterMap BlockHead.situation
  | .call c => by
      intro h
      have hnone : c.situation = none := by
        cases hsituation : c.situation with
        | none => rfl
        | some _ => simp [Node.checkUncovered, hsituation] at h
      constructor
      · intro e he
        cases he
      · intro path s hs
        rw [List.mem_singleton.mp hs, CallSite.situations, hnone]
        rfl
  | .block head children => by
      intro h
      rw [Node.checkUncovered] at h
      split at h
      · cases h
      · rename_i hhead
        have hnone : head.situation = none := by
          simpa using hhead
        rcases Node.bare_of_checkAllUncovered children h with ⟨hblocks, hcalls⟩
        constructor
        · intro e he
          rcases List.mem_cons.mp he with rfl | hinner
          · exact hnone
          · exact hblocks e hinner
        · intro path s hs
          rw [hcalls (head :: path) s hs, List.filterMap_cons_none hnone]
  | .label _ | .output _ | .directive _ | .access _ => by
      intro _
      constructor
      · intro e he
        cases he
      · intro path s hs
        cases hs

theorem Node.bare_of_checkAllUncovered :
    ∀ children : List (Node α), Node.checkAllUncovered children = .ok () →
      (∀ e ∈ Node.allBlocksOf children, e.head.situation = none) ∧
        ∀ path, ∀ s ∈ Node.callSitesOf path children,
          s.situations = path.filterMap BlockHead.situation
  | [] => by
      intro _
      constructor
      · intro e he
        cases he
      · intro path s hs
        cases hs
  | n :: rest => by
      intro h
      rcases bind_eq_ok.mp h with ⟨_, hfirst, hrest⟩
      rcases Node.bare_of_checkUncovered n hfirst with ⟨hblocks, hcalls⟩
      rcases Node.bare_of_checkAllUncovered rest hrest with ⟨hblocks', hcalls'⟩
      constructor
      · intro e he
        rcases List.mem_append.mp he with hold | hnew
        · exact hblocks e hold
        · exact hblocks' e hnew
      · intro path s hs
        rcases List.mem_append.mp hs with hold | hnew
        · exact hcalls path s hold
        · exact hcalls' path s hnew

end

theorem Block.checkCover_eq_ok {b : Block α} (h : b.checkCover = .ok ())
    (hsituation : b.head.situation.isSome = true) : Node.checkAllUncovered b.children = .ok () := by
  rw [checkCover, if_pos hsituation] at h
  exact h

theorem Block.uncovered_of_checkCover {b d e : Block α} (h : b.checkCover = .ok ())
    (hsituation : b.head.situation.isSome = true) (hd : d ∈ b.blocks) (he : e ∈ d.allBlocks) :
    e.head.situation = none := by
  apply (Node.bare_of_checkAllUncovered b.children (checkCover_eq_ok h hsituation)).left e
  rw [allBlocksOf_eq]
  exact List.mem_flatMap.mpr ⟨d, hd, he⟩

mutual

theorem Node.situations_le_one : ∀ (n : Node α) (path : List BlockHead),
    (∀ e ∈ n.allBlocks, e.checkCover = .ok ()) → path.filterMap BlockHead.situation = [] →
      ∀ s ∈ n.callSites path, s.situations.length ≤ 1
  | .call c, path => by
      intro _ hpath s hs
      rw [List.mem_singleton.mp hs, CallSite.situations, hpath, List.append_nil]
      cases c.situation <;> simp
  | .block head children, path => by
      intro hcovers hpath s hs
      have hself := hcovers ⟨head, children⟩ List.mem_cons_self
      cases hhead : head.situation with
      | none =>
          have hnext : (head :: path).filterMap BlockHead.situation = [] := by
            rw [List.filterMap_cons_none hhead, hpath]
          exact Node.situations_le_one_all children (head :: path)
            (fun e he => hcovers e (List.mem_cons_of_mem _ he)) hnext s hs
      | some situation =>
          have hsome : head.situation.isSome = true := by
            rw [hhead]
            rfl
          have hbare := Node.bare_of_checkAllUncovered children
            (Block.checkCover_eq_ok hself hsome)
          rw [hbare.right (head :: path) s hs, List.filterMap_cons_some hhead, hpath]
          exact Nat.le_refl 1
  | .label _, _ | .output _, _ | .directive _, _ | .access _, _ => by
      intro _ _ s hs
      cases hs

theorem Node.situations_le_one_all : ∀ (children : List (Node α)) (path : List BlockHead),
    (∀ e ∈ Node.allBlocksOf children, e.checkCover = .ok ()) →
      path.filterMap BlockHead.situation = [] →
        ∀ s ∈ Node.callSitesOf path children, s.situations.length ≤ 1
  | [], _ => by
      intro _ _ s hs
      cases hs
  | n :: rest, path => by
      intro hcovers hpath s hs
      rcases List.mem_append.mp hs with hfirst | hrest
      · exact Node.situations_le_one n path
          (fun e he => hcovers e (List.mem_append_left _ he)) hpath s hfirst
      · exact Node.situations_le_one_all rest path
          (fun e he => hcovers e (List.mem_append_right _ he)) hpath s hrest

end

end

/-!
# Sealed trees
-/

theorem StreamAccess.checkUncovered_unrolled (a : StreamAccess) (calls : List Primitive) :
    (a.unrolled calls).checkUncovered = .ok () := by
  have hcalls : Node.checkAllUncovered
      (calls.map fun p => (.call ⟨p, none⟩ : Node Empty)) = .ok () := by
    induction calls with
    | nil => rfl
    | cons p rest ih => exact ih
  exact hcalls

mutual

theorem Node.checkUncovered_unrolled (calls : StreamAccess → List Primitive) :
    ∀ n : Node StreamAccess, (n.unrolled calls).checkUncovered = n.checkUncovered
  | .call c => rfl
  | .block head children => by
      rw [Node.unrolled, Node.checkUncovered, Node.checkUncovered,
        Node.checkAllUncovered_unrolled calls children]
  | .label _ | .output _ | .directive _ => rfl
  | .access a => a.checkUncovered_unrolled (calls a)

theorem Node.checkAllUncovered_unrolled (calls : StreamAccess → List Primitive) :
    ∀ children : List (Node StreamAccess),
      Node.checkAllUncovered (Node.unrolledAll calls children) = Node.checkAllUncovered children
  | [] => rfl
  | n :: rest => by
      rw [Node.unrolledAll, Node.checkAllUncovered, Node.checkAllUncovered,
        Node.checkUncovered_unrolled calls n, Node.checkAllUncovered_unrolled calls rest]

end

theorem Block.checkCover_unrolled (calls : StreamAccess → List Primitive) (b : Block StreamAccess) :
    (b.unrolled calls).checkCover = b.checkCover := by
  unfold checkCover Block.unrolled
  rw [Node.checkAllUncovered_unrolled]

theorem Block.checkCover_of_none {α : Type} {b : Block α} (h : b.head.situation = none) :
    b.checkCover = .ok () := by
  rw [checkCover, h]
  rfl

section

variable {name : String} {model : Model} {options : Options} {comments : CommentTokens}
variable {commands : List Command} {t : SealedTemplate}

theorem Context.run_holdsCovered (name : String) (model : Model) (options : Options)
    (comments : CommentTokens) (commands : List Command) :
    ∀ s ∈ ((start name model options comments).run commands).allScopes,
      s.Holds fun b => b.checkCover = .ok () := by
  apply run_scopes
  · intro p
    exact Scope.holds_nil rfl
  · intro c _ hscopes s horigin
    exact horigin.holds hscopes fun _ _ hcover => hcover

theorem Context.situation_of_phase {c : Context} (hrooted : Rooted c) (h : c.seal = .ok t)
    (p : Phase) : (t.phases.get p).head.situation = none := by
  rw [(unrolled_of_seal h).right.left, unrolled, built, PhaseTable.get_map, PhaseTable.get_map]
  exact congrArg BlockHead.situation (hrooted.roots p)

theorem checkCover_of_seal
    (h : ((Context.start name model options comments).run commands).seal = .ok t) :
    ∀ b ∈ t.blocks, b.checkCover = .ok () := by
  have hrooted := Context.run_rooted (Context.Rooted.start name model options comments) commands
  have hcovered := Context.run_holdsCovered name model options comments commands
  intro b hb
  rcases Context.built_or_access_of_seal h hb with ⟨s, hs, e, he, rfl⟩ | ⟨a, _, hba⟩
  · rw [Block.checkCover_unrolled]
    apply (hcovered s hs).allBlocks _ e he
    rw [Context.allScopes, (Context.seal_eq_ok.mp h).left, List.append_nil] at hs
    rcases PhaseTable.mem_toList.mp hs with ⟨p, rfl⟩
    exact Block.checkCover_of_none (congrArg BlockHead.situation (hrooted.roots p))
  · have hhead := (Node.block.inj hba).left
    apply Block.checkCover_of_none
    rw [hhead]

end

/-- At most one situation reaches a call of the template, and it is the one that the replay
reports. -/
structure SituatedOnce (t : SealedTemplate) : Prop where
  calls : ∀ s ∈ t.callSites, s.situations.length ≤ 1
  reported : ∀ report ∈ Event.callsWithin [] t.replay,
    report.2.1.toList =
      report.1.situation.toList ++ report.2.2.filterMap BlockHead.situation
  nested : ∀ b ∈ t.blocks, b.head.situation.isSome = true →
    ∀ d ∈ b.blocks, ∀ e ∈ d.allBlocks, e.head.situation = none
  phaseRoots : ∀ b ∈ t.phases.toList, b.head.situation = none
  expansions : ∀ b ∈ t.blocks, b.head.kind = .expansion → b.head.situation = none

section

variable {name : String} {model : Model} {options : Options} {comments : CommentTokens}
variable {commands : List Command} {t : SealedTemplate}

/-- In every template that a build seals to, at most one situation reaches a call. -/
theorem situatedOnce_of_seal
    (h : ((Context.start name model options comments).run commands).seal = .ok t) :
    SituatedOnce t := by
  have hrooted := Context.run_rooted (Context.Rooted.start name model options comments) commands
  have huser := Context.run_userBlocks
    (Context.UserBlocks.initially name model options comments) commands
  have hcovers := checkCover_of_seal h
  have hcalls : ∀ s ∈ t.callSites, s.situations.length ≤ 1 := by
    intro s hs
    rcases List.mem_flatMap.mp hs with ⟨b, hb, hsite⟩
    apply Node.situations_le_one b.toNode [] _ rfl s hsite
    intro e he
    exact hcovers e (List.mem_flatMap.mpr ⟨b, hb, he⟩)
  refine
    { calls := hcalls
      reported := ?_
      nested := ?_
      phaseRoots := ?_
      expansions := ?_ }
  · intro report hreport
    rw [t.callsWithin_replay] at hreport
    rcases List.mem_map.mp hreport with ⟨s, hs, rfl⟩
    have hone := hcalls s hs
    change s.situation?.toList = s.situations
    rw [s.situation?_eq]
    generalize s.situations = situations at hone ⊢
    rcases situations with _ | ⟨situation, _ | ⟨other, rest⟩⟩
    · rfl
    · rfl
    · simp at hone
  · intro b hb hsituation d hd e he
    exact Block.uncovered_of_checkCover (hcovers b hb) hsituation hd he
  · intro b hb
    rcases PhaseTable.mem_toList.mp hb with ⟨p, rfl⟩
    exact Context.situation_of_phase hrooted h p
  · intro b hb hkind
    rcases Context.built_or_access_of_seal h hb with ⟨s, hs, e, he, rfl⟩ | ⟨a, _, hba⟩
    · exact absurd hkind (Context.kind_of_built hrooted huser hs he)
    · rw [(Node.block.inj hba).left]

end

def SampleBuild.withSituations : List Command :=
  SampleBuild.commands ++
    [.openBlock .plain {}, .instruction "add" [.concrete 1, .concrete 2],
      .coverBlock (.named "zero"), .openBlock .plain {}, .readStream "table", .closeBlock,
      .instruction "add" [.concrete 3, .concrete 4], .closeBlock, .openBlock .plain {},
      .instruction "add" [.concrete 5, .concrete 6], .attach (.named "normal"),
      .coverBlock (.named "all"), .closeBlock, .coverBlock (.named "root"),
      .instruction "add" [.concrete 7, .concrete 8], .attach (.named "normal"),
      .attach (.named "late")]

theorem situatedOnce_of_seal_sample :
    ∃ t, (SampleBuild.start.run SampleBuild.withSituations).seal = .ok t ∧
      (t.callSites.map fun s => s.situations.map Situation.name) =
        [[], [], [], ["zero"], ["zero"], ["zero"], ["normal"]] ∧
      SituatedOnce t := by
  have hnames : ((SampleBuild.start.run SampleBuild.withSituations).seal.toOption.map
      fun t => t.callSites.map fun s => s.situations.map Situation.name) =
        some [[], [], [], ["zero"], ["zero"], ["zero"], ["normal"]] := by
    decide +kernel
  rcases Option.map_eq_some_iff.mp hnames with ⟨t, hsome, hsituations⟩
  have ht := Checked.toOption_eq_some.mp hsome
  exact ⟨t, ht, hsituations, situatedOnce_of_seal ht⟩

end Stimulus
