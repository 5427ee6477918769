import Stimulus.Proofs.BindingPass
import Stimulus.Proofs.BlockOrder

/-!
# Situations of blocks and of calls

## Profiles

Reports of calls and bindings of placeholders read nothing of a call site but its
primitive, the situation that governs it, whether it lies in an expansion, and which
modes are constrained around it.

## Copies

A block may give up its situation if every call inside it gets a copy.  Where nothing
inside the block has a situation of its own, all call sites keep their profiles.
-/

namespace Stimulus

/-!
# Profiles of call sites
-/

namespace CallSite

def governed (s : CallSite) : Primitive × Option Situation :=
  (s.call.primitive, s.situation?)

/-- What reports and bindings depend on. -/
def profile (s : CallSite) : (Primitive × Option Situation) × Bool × (String → Bool) :=
  (s.governed, s.inExpansion, s.constrains)

theorem profile_eq_iff {s s' : CallSite} :
    s.profile = s'.profile ↔
      s.call.primitive = s'.call.primitive ∧ s.situation? = s'.situation? ∧
        s.inExpansion = s'.inExpansion ∧ s.constrains = s'.constrains := by
  simp [profile, governed, and_assoc]

end CallSite

namespace BindingState

variable {sources : Sources} {s s' : CallSite}

theorem bind_congr (h : s.profile = s'.profile) (st : BindingState) (owner : Primitive)
    (placeholder : Placeholder) :
    st.bind sources s.visited owner placeholder = st.bind sources s'.visited owner placeholder := by
  rcases CallSite.profile_eq_iff.mp h with ⟨hprimitive, hsituation, hexpansion, hconstrains⟩
  have hcovers : ∀ name, (s.visited.allocations.any fun a => a.covers name) =
      s'.visited.allocations.any fun a => a.covers name := by
    intro name
    rw [CallSite.covers_visited, CallSite.covers_visited, hconstrains]
  have hproducer : sources.producer s.visited owner placeholder =
      sources.producer s'.visited owner placeholder := by
    simp only [Sources.producer, hcovers]
    simp only [CallSite.visited, hprimitive, hsituation]
  have hresolved : sources.resolved s.visited = sources.resolved s'.visited := by
    funext index
    simp only [Sources.resolved, CallSite.visited, hprimitive]
  unfold bind record
  rw [hproducer, hresolved, CallSite.inExpansion_visited, CallSite.inExpansion_visited,
    hexpansion]

theorem bindSlots_congr (h : s.profile = s'.profile) (st : BindingState) (slots : List Slot) :
    st.bindSlots sources s.visited slots = st.bindSlots sources s'.visited slots := by
  induction slots generalizing st with
  | nil =>
      rfl
  | cons slot rest ih =>
      rcases slot with ⟨argument, owner⟩
      cases argument with
      | placeholder placeholder =>
          rw [bindSlots, bindSlots, bind_congr h]
          simp only [ih]
      | _ => exact ih st

theorem bindSites_congr {sites sites' : List CallSite}
    (h : sites.map CallSite.profile = sites'.map CallSite.profile) (st : BindingState) :
    st.bindSites sources sites = st.bindSites sources sites' := by
  induction sites generalizing sites' st with
  | nil =>
      rw [List.map_nil, eq_comm, List.map_eq_nil_iff] at h
      rw [h]
  | cons s rest ih =>
      cases sites' with
      | nil => cases h
      | cons s' rest' =>
          rw [List.map_cons, List.map_cons, List.cons.injEq] at h
          have hprimitive := (CallSite.profile_eq_iff.mp h.left).left
          rw [bindSites, bindSites, bindCall, bindCall, bindSlots_congr h.left]
          simp only [CallSite.visited, hprimitive]
          simp only [ih h.right]

end BindingState

def Event.governed? : Event → Option (Primitive × Option Situation)
  | .call c situation => some (c.primitive, situation)
  | _ => none

theorem Event.governed_eq (path : List BlockHead) (events : List Event) :
    events.filterMap Event.governed? =
      (Event.callsWithin path events).map fun report => (report.1.primitive, report.2.1) := by
  induction events generalizing path with
  | nil =>
      rfl
  | cons e rest ih =>
      cases e with
      | call c situation => exact congrArg _ (ih path)
      | blockStart block => exact ih _
      | blockStop block => exact ih _
      | _ => exact ih path

theorem Block.governed_events (b : Block Empty) :
    b.events.filterMap Event.governed? = b.callSites.map CallSite.governed := by
  have hevents := Block.callsWithin_events [b] []
  simp only [allCallSites, List.flatMap_singleton, List.append_nil] at hevents
  rw [Event.governed_eq [], hevents, Event.callsWithin, List.append_nil, List.map_map]
  rfl

/-!
# Blocks at positions
-/

section

variable {α : Type}

private theorem map_modify {β : Type} {l : List α} {i : Nat} {f : α → α} {g : α → β}
    (h : ∀ a, l[i]? = some a → g (f a) = g a) : (l.modify i f).map g = l.map g := by
  induction l generalizing i with
  | nil =>
      rw [List.modify_nil]
  | cons a rest ih =>
      cases i with
      | zero => rw [List.modify_zero_cons, List.map_cons, List.map_cons, h a rfl]
      | succ i => rw [List.modify_succ_cons, List.map_cons, List.map_cons, ih h]

def Block.at? : List Nat → Block α → Option (Block α)
  | [], b => some b
  | i :: rest, b => (b.children[i]?.bind Node.block?).bind (Block.at? rest)

def Block.modifyAt (f : Block α → Block α) : List Nat → Block α → Block α
  | [], b => f b
  | i :: rest, b =>
      { b with
        children := b.children.modify i fun n =>
          match n.block? with
          | some inner => (Block.modifyAt f rest inner).toNode
          | none => n }

theorem Node.eq_toNode {n : Node α} {b : Block α} (h : n.block? = some b) : n = b.toNode := by
  cases n with
  | block head children =>
      cases h
      rfl
  | _ => cases h

namespace Block

variable {b d : Block α}

theorem at?_cons {i : Nat} {rest : List Nat} :
    b.at? (i :: rest) = some d ↔
      ∃ inner : Block α, b.children[i]? = some inner.toNode ∧ inner.at? rest = some d := by
  rw [at?, Option.bind_eq_some_iff]
  constructor
  · intro h
    rcases h with ⟨inner, hinner, hd⟩
    rcases Option.bind_eq_some_iff.mp hinner with ⟨n, hn, hblock⟩
    rw [Node.eq_toNode hblock] at hn
    exact ⟨inner, hn, hd⟩
  · intro h
    rcases h with ⟨inner, hinner, hd⟩
    exact ⟨inner, Option.bind_eq_some_iff.mpr ⟨inner.toNode, hinner, rfl⟩, hd⟩

theorem exists_at? (h : d ∈ b.allBlocks) : ∃ position, b.at? position = some d := by
  induction b using nesting with
  | step b ih =>
      rcases mem_allBlocks.mp h with rfl | ⟨inner, hinner, hd⟩
      · exact ⟨[], rfl⟩
      · rcases ih inner hinner hd with ⟨rest, hrest⟩
        rcases List.mem_filterMap.mp hinner with ⟨n, hn, hblock⟩
        rcases List.getElem?_of_mem hn with ⟨i, hi⟩
        rw [Node.eq_toNode hblock] at hi
        exact ⟨i :: rest, at?_cons.mpr ⟨inner, hi, hrest⟩⟩

theorem profiles_modifyAt {f : Block α → Block α} {position : List Nat}
    (hd : b.at? position = some d)
    (hsame : ∀ path, ((f d).toNode.callSites path).map CallSite.profile =
      (d.toNode.callSites path).map CallSite.profile) (path : List BlockHead) :
    ((b.modifyAt f position).toNode.callSites path).map CallSite.profile =
      (b.toNode.callSites path).map CallSite.profile := by
  induction position generalizing b path with
  | nil =>
      cases hd
      exact hsame path
  | cons i rest ih =>
      rcases at?_cons.mp hd with ⟨inner, hinner, hat⟩
      have hchild : ∀ n, b.children[i]? = some n → n = inner.toNode := by
        intro n hn
        exact Option.some.inj (hn.symm.trans hinner)
      rw [modifyAt, toNode, toNode, Node.callSites, Node.callSites, Node.callSitesOf_eq,
        Node.callSitesOf_eq, List.map_flatMap, List.map_flatMap, List.flatMap_def,
        List.flatMap_def]
      apply congrArg List.flatten
      apply map_modify
      intro n hn
      rw [hchild n hn]
      exact ih hat (b.head :: path)

end Block

/-!
# Bare nodes and copies
-/

mutual

def Node.Bare : Node α → Prop
  | .call c => c.situation = none
  | .block head children => head.situation = none ∧ Node.BareAll children
  | _ => True

def Node.BareAll : List (Node α) → Prop
  | [] => True
  | n :: rest => n.Bare ∧ Node.BareAll rest

end

mutual

def Node.covered (s : Situation) : Node α → Node α
  | .call c => .call { c with situation := some s }
  | .block head children => .block head (Node.coveredAll s children)
  | n => n

def Node.coveredAll (s : Situation) : List (Node α) → List (Node α)
  | [] => []
  | n :: rest => n.covered s :: Node.coveredAll s rest

end

/-- Takes the situation off the block and attaches it to every call inside. -/
def Block.spread (s : Situation) (b : Block α) : Block α where
  head := { b.head with situation := none }
  children := Node.coveredAll s b.children

mutual

theorem Node.profiles_covered {s : Situation} {head : BlockHead} (hs : head.situation = some s)
    (path : List BlockHead) : ∀ (n : Node α) (inner : List BlockHead),
      (∀ h ∈ inner, h.situation = none) → n.Bare →
        ((n.covered s).callSites (inner ++ { head with situation := none } :: path)).map
            CallSite.profile =
          (n.callSites (inner ++ head :: path)).map CallSite.profile
  | .call c, inner, hinner, hbare => by
      have hnone : inner.findSome? BlockHead.situation = none :=
        List.findSome?_eq_none_iff.mpr hinner
      have hbare : c.situation = none := hbare
      rw [Node.covered, Node.callSites, Node.callSites, List.map_singleton, List.map_singleton,
        List.singleton_inj, CallSite.profile_eq_iff]
      refine ⟨rfl, ?_, ?_, ?_⟩
      · simp [CallSite.situation?, List.findSome?_append, hnone, hbare, hs]
      · simp [CallSite.inExpansion]
      · funext name
        simp [CallSite.constrains]
  | .block own children, inner, hinner, hbare => by
      have hown : ∀ h ∈ own :: inner, h.situation = none :=
        List.forall_mem_cons.mpr ⟨hbare.left, hinner⟩
      exact Node.profiles_coveredAll hs path children (own :: inner) hown hbare.right
  | .label _, _, _, _ => rfl
  | .output _, _, _, _ => rfl
  | .directive _, _, _, _ => rfl
  | .access _, _, _, _ => rfl

theorem Node.profiles_coveredAll {s : Situation} {head : BlockHead}
    (hs : head.situation = some s) (path : List BlockHead) :
    ∀ (children : List (Node α)) (inner : List BlockHead),
      (∀ h ∈ inner, h.situation = none) → Node.BareAll children →
        (Node.callSitesOf (inner ++ { head with situation := none } :: path)
            (Node.coveredAll s children)).map CallSite.profile =
          (Node.callSitesOf (inner ++ head :: path) children).map CallSite.profile
  | [], _, _, _ => rfl
  | n :: rest, inner, hinner, hbare => by
      rw [Node.coveredAll, Node.callSitesOf, Node.callSitesOf, List.map_append, List.map_append,
        Node.profiles_covered hs path n inner hinner hbare.left,
        Node.profiles_coveredAll hs path rest inner hinner hbare.right]

end

namespace Block

variable {b d : Block α} {s : Situation}

theorem profiles_spread (hs : b.head.situation = some s) (hbare : Node.BareAll b.children)
    (path : List BlockHead) :
    ((b.spread s).toNode.callSites path).map CallSite.profile =
      (b.toNode.callSites path).map CallSite.profile :=
  Node.profiles_coveredAll hs path b.children [] (by simp) hbare

theorem profiles_modify {trees : List (Block α)} {k : Nat} {root : Block α}
    {position : List Nat} (hroot : trees[k]? = some root) (hb : root.at? position = some b)
    (hs : b.head.situation = some s) (hbare : Node.BareAll b.children) :
    (trees.modify k (modifyAt (spread s) position)).map
        (fun t => t.callSites.map CallSite.profile) =
      trees.map fun t => t.callSites.map CallSite.profile := by
  apply map_modify
  intro t ht
  cases hroot.symm.trans ht
  exact profiles_modifyAt hb (profiles_spread hs hbare) []

end Block

end

/-!
# Reports and bindings
-/

namespace Block

variable {trees trees' : List (Block Empty)} {root b : Block Empty} {s : Situation} {k : Nat}
variable {position : List Nat}

/-- Tree by tree the same primitives are reported under the same situations, and the
placeholders get the same bindings or the same refusal. -/
structure SameCalls (trees trees' : List (Block Empty)) : Prop where
  sites : (trees'.map fun t => t.callSites.map CallSite.governed) =
    trees.map fun t => t.callSites.map CallSite.governed
  events : (trees'.map fun t => t.events.filterMap Event.governed?) =
    trees.map fun t => t.events.filterMap Event.governed?
  bindings : ∀ sources : Sources, sources.resolve trees' = sources.resolve trees

theorem sameCalls_of_profiles
    (h : (trees'.map fun t => t.callSites.map CallSite.profile) =
      trees.map fun t => t.callSites.map CallSite.profile) : SameCalls trees trees' := by
  have hsites : (trees'.map fun t => t.callSites.map CallSite.governed) =
      trees.map fun t => t.callSites.map CallSite.governed := by
    have hfirst := congrArg (List.map (List.map Prod.fst)) h
    simpa only [List.map_map, Function.comp_def, CallSite.profile] using hfirst
  refine ⟨hsites, ?_, ?_⟩
  · simpa only [governed_events] using hsites
  · intro sources
    have hall : (trees'.flatMap callSites).map CallSite.profile =
        (trees.flatMap callSites).map CallSite.profile := by
      rw [List.map_flatMap, List.map_flatMap, List.flatMap_def, List.flatMap_def, h]
    rw [Sources.resolve_eq_bindSites, Sources.resolve_eq_bindSites,
      BindingState.bindSites_congr hall]

/-- A situation of a block does what copies of it on the calls inside do, wherever the
block stands. -/
theorem sameCalls_of_spread (hroot : trees[k]? = some root) (hb : root.at? position = some b)
    (hs : b.head.situation = some s) (hbare : Node.BareAll b.children) :
    SameCalls trees (trees.modify k (modifyAt (spread s) position)) :=
  sameCalls_of_profiles (profiles_modify hroot hb hs hbare)

def sampleShared : Block Empty :=
  ⟨{ id := ⟨[1, 0]⟩, kind := .user .sequence, situation := some (.named "zero"),
      allocations := [{ resourceClass := "reg" }] },
    [.call ⟨⟨.instruction, "add", [.placeholder (.unknown 0)]⟩, none⟩, .label "here",
      .block { id := ⟨[1, 0, 0]⟩, kind := .user .plain }
        [.call ⟨⟨.instruction, "j", [.placeholder (.lazy 0)]⟩, none⟩],
      .block { id := ⟨[1, 0, 1]⟩, kind := .expansion }
        [.call ⟨⟨.instruction, "la", [.placeholder (.unknown 1)]⟩, none⟩]]⟩

def sampleTrees : List (Block Empty) :=
  [⟨{ id := ⟨[0]⟩, kind := .phaseRoot }, []⟩,
    ⟨{ id := ⟨[1]⟩, kind := .phaseRoot },
      [.call ⟨⟨.instruction, "nop", []⟩, none⟩, sampleShared.toNode]⟩]

theorem sameCalls_of_spread_sample :
    ((sampleTrees.modify 1 (modifyAt (spread (.named "zero")) [1])).map fun t =>
        t.callSites.map fun site => site.call.situation.isSome) =
      [[], [false, true, true, true]] ∧
    SameCalls sampleTrees (sampleTrees.modify 1 (modifyAt (spread (.named "zero")) [1])) :=
  ⟨rfl, sameCalls_of_spread (b := sampleShared) rfl rfl rfl
    ⟨rfl, trivial, ⟨rfl, rfl, trivial⟩, ⟨rfl, rfl, trivial⟩, trivial⟩⟩

end Block
end Stimulus
