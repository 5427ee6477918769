import Stimulus.Proofs.BlockIndices
import Stimulus.Proofs.PlaceholderUses

/-!
# Blocks of sealed trees

## Unrolled trees

A block of an unrolled tree was built, or it stands for a stream access and holds
nothing but calls.  So what holds of all blocks of a sealed template is a law of the
built blocks and a law of the accesses.

## Calls

Every call of a sealed template stands in a block.  It was built there, or it comes
from a pattern of the preparator that was accessed.
-/

namespace Stimulus

theorem StreamAccess.toNode_of_mem (a : StreamAccess) (calls : List Primitive) {b : Block Empty}
    (hb : b ∈ (a.unrolled calls).allBlocks) : b.toNode = a.unrolled calls := by
  rw [unrolled, Node.allBlocks, Block.allBlocksOf_eq, List.filterMap_map] at hb
  rcases List.mem_cons.mp hb with rfl | hinner
  · rfl
  · rcases List.mem_flatMap.mp hinner with ⟨d, hd, _⟩
    rcases List.mem_filterMap.mp hd with ⟨_, _, hcall⟩
    cases hcall

mutual

theorem Node.built_or_access (calls : StreamAccess → List Primitive) {b : Block Empty} :
    ∀ n : Node StreamAccess, b ∈ (n.unrolled calls).allBlocks →
      (∃ e ∈ n.allBlocks, b = e.unrolled calls) ∨
        ∃ a ∈ n.accesses, b.toNode = a.unrolled (calls a)
  | .block head children => by
      intro hb
      rw [Node.unrolled, Node.allBlocks] at hb
      rcases List.mem_cons.mp hb with rfl | hinner
      · exact Or.inl ⟨⟨head, children⟩, List.mem_cons_self, rfl⟩
      · rcases Node.built_or_access_all calls children hinner with ⟨e, he, hbe⟩ | haccess
        · exact Or.inl ⟨e, List.mem_cons_of_mem _ he, hbe⟩
        · exact Or.inr haccess
  | .access a => by
      intro hb
      exact Or.inr ⟨a, List.mem_singleton_self a, a.toNode_of_mem _ hb⟩
  | .call _ | .label _ | .output _ | .directive _ => by
      intro hb
      cases hb

theorem Node.built_or_access_all (calls : StreamAccess → List Primitive) {b : Block Empty} :
    ∀ children : List (Node StreamAccess),
      b ∈ Node.allBlocksOf (Node.unrolledAll calls children) →
        (∃ e ∈ Node.allBlocksOf children, b = e.unrolled calls) ∨
          ∃ a ∈ Node.accessesOf children, b.toNode = a.unrolled (calls a)
  | [] => by
      intro hb
      cases hb
  | n :: rest => by
      intro hb
      rw [Node.unrolledAll, Node.allBlocksOf] at hb
      rw [Node.allBlocksOf, Node.accessesOf]
      rcases List.mem_append.mp hb with hfirst | hrest
      · rcases Node.built_or_access calls n hfirst with ⟨e, he, hbe⟩ | ⟨a, ha, hba⟩
        · exact Or.inl ⟨e, List.mem_append_left _ he, hbe⟩
        · exact Or.inr ⟨a, List.mem_append_left _ ha, hba⟩
      · rcases Node.built_or_access_all calls rest hrest with ⟨e, he, hbe⟩ | ⟨a, ha, hba⟩
        · exact Or.inl ⟨e, List.mem_append_right _ he, hbe⟩
        · exact Or.inr ⟨a, List.mem_append_right _ ha, hba⟩

end

theorem Context.built_or_access_of_seal {c : Context} {t : SealedTemplate} (h : c.seal = .ok t)
    {b : Block Empty} (hb : b ∈ t.blocks) :
    (∃ s ∈ c.allScopes, ∃ e ∈ s.block.allBlocks, b = e.unrolled c.callsOf) ∨
      ∃ a ∈ c.accesses, b.toNode = a.unrolled (c.callsOf a) := by
  have hscopes : c.allScopes = c.roots.toList := by
    rw [allScopes, (seal_eq_ok.mp h).left, List.append_nil]
  rw [blocks_of_seal h] at hb
  rcases List.mem_flatMap.mp hb with ⟨s, hs, hbs⟩
  rcases Node.built_or_access c.callsOf s.block.toNode hbs with hbuilt | ⟨a, ha, hba⟩
  · exact Or.inl ⟨s, hs, hbuilt⟩
  · rw [hscopes] at hs
    rcases PhaseTable.mem_toList.mp hs with ⟨p, rfl⟩
    right
    refine ⟨a, List.mem_flatMap.mpr ⟨c.built.get p, PhaseTable.mem_toList.mpr ⟨p, rfl⟩, ?_⟩, hba⟩
    rw [built, PhaseTable.get_map]
    exact ha

/-!
# Calls of sealed trees
-/

section

variable {α : Type}

mutual

theorem Node.called_of_callSites : ∀ (n : Node α) (path : List BlockHead),
    ∀ s ∈ n.callSites path, n.call? = some s.call ∨ ∃ b ∈ n.allBlocks, s.call ∈ b.calls
  | .call c, path => by
      intro s hs
      rw [List.mem_singleton.mp hs]
      exact Or.inl rfl
  | .block head children, path => by
      intro s hs
      rcases Node.called_of_callSitesOf children (head :: path) s hs with
        hown | ⟨b, hb, hcall⟩
      · exact Or.inr ⟨⟨head, children⟩, List.mem_cons_self, hown⟩
      · exact Or.inr ⟨b, List.mem_cons_of_mem _ hb, hcall⟩
  | .label _, _ | .output _, _ | .directive _, _ | .access _, _ => by
      intro s hs
      cases hs

theorem Node.called_of_callSitesOf : ∀ (children : List (Node α)) (path : List BlockHead),
    ∀ s ∈ Node.callSitesOf path children,
      s.call ∈ children.filterMap Node.call? ∨ ∃ b ∈ Node.allBlocksOf children, s.call ∈ b.calls
  | [], _ => by
      intro s hs
      cases hs
  | n :: rest, path => by
      intro s hs
      rw [Node.allBlocksOf]
      rcases List.mem_append.mp hs with hfirst | hrest
      · rcases Node.called_of_callSites n path s hfirst with hown | ⟨b, hb, hcall⟩
        · exact Or.inl (List.mem_filterMap.mpr ⟨n, List.mem_cons_self, hown⟩)
        · exact Or.inr ⟨b, List.mem_append_left _ hb, hcall⟩
      · rcases Node.called_of_callSitesOf rest path s hrest with hown | ⟨b, hb, hcall⟩
        · rcases List.mem_filterMap.mp hown with ⟨d, hd, hdcall⟩
          exact Or.inl (List.mem_filterMap.mpr ⟨d, List.mem_cons_of_mem _ hd, hdcall⟩)
        · exact Or.inr ⟨b, List.mem_append_right _ hb, hcall⟩

end

end

theorem SealedTemplate.called_of_callSites (t : SealedTemplate) {s : CallSite}
    (hs : s ∈ t.callSites) : ∃ b ∈ t.blocks, s.call ∈ b.calls := by
  rcases List.mem_flatMap.mp hs with ⟨root, hroot, hsite⟩
  rcases Node.called_of_callSites root.toNode [] s hsite with hnode | ⟨b, hb, hcall⟩
  · cases hnode
  · exact ⟨b, List.mem_flatMap.mpr ⟨root, hroot, hb⟩, hcall⟩

theorem Block.calls_unrolled (calls : StreamAccess → List Primitive) (b : Block StreamAccess) :
    (b.unrolled calls).calls = b.calls := by
  rw [Block.calls, Block.unrolled, Node.unrolledAll_eq, List.filterMap_map]
  congr 1
  funext n
  cases n <;> rfl

theorem StreamAccess.calls_unrolled (a : StreamAccess) (calls : List Primitive) {b : Block Empty}
    (hb : b.toNode = a.unrolled calls) : b.calls = calls.map fun p => ⟨p, none⟩ := by
  rw [Block.calls, (Node.block.inj hb).right, List.filterMap_map, ← List.filterMap_eq_map]
  rfl

theorem Streams.mem_calls {t : Streams} {start : String → UInt64} {a : StreamAccess}
    {p : Primitive} (h : p ∈ t.calls start a) :
    ∃ stream, t.get? a.stream = some stream ∧
      ∃ pattern ∈ stream.preparator.part a.part,
        p = pattern.subst (stream.holeValue (start stream.label)) := by
  unfold calls at h
  split at h
  · rename_i stream hstream
    rcases List.mem_map.mp h with ⟨pattern, hpattern, rfl⟩
    exact ⟨stream, hstream, pattern, hpattern, rfl⟩
  · cases h

theorem Context.built_or_pattern_of_seal {c : Context} {t : SealedTemplate} (h : c.seal = .ok t)
    {s : CallSite} (hs : s ∈ t.callSites) :
    (∃ scope ∈ c.allScopes, ∃ e ∈ scope.block.allBlocks, s.call ∈ e.calls) ∨
      ∃ a ∈ c.accesses, ∃ p ∈ c.callsOf a, s.call = ⟨p, none⟩ := by
  rcases t.called_of_callSites hs with ⟨b, hb, hcall⟩
  rcases built_or_access_of_seal h hb with ⟨scope, hscope, e, he, rfl⟩ | ⟨a, ha, hba⟩
  · rw [Block.calls_unrolled] at hcall
    exact Or.inl ⟨scope, hscope, e, he, hcall⟩
  · rw [a.calls_unrolled _ hba] at hcall
    rcases List.mem_map.mp hcall with ⟨p, hp, hsame⟩
    exact Or.inr ⟨a, ha, p, hp, hsame.symm⟩

end Stimulus
