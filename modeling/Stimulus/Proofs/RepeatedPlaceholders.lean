import Stimulus.Proofs.BlockKinds
import Stimulus.Proofs.Sealability

/-!
# Repeated placeholders

## The pass

The binding pass takes a first use if it can be bound, and a later use if it and
all uses of its placeholder behind it lie in expansions.  Every other later use is
refused as a repetition.

## Expansions

So a sealed template repeats a placeholder in expansions only.  They need not be
expansions of one stream: the pass knows that a use lies in an expansion, and not of
which stream.  Two streams that are bound to one register share its placeholder.
-/

namespace Stimulus

open Checked

/-!
# First and later uses
-/

/-- No use of the placeholder stands before `u`. -/
def FirstUse (uses : List PlaceholderUse) (u : PlaceholderUse) : Prop :=
  ∃ front back, uses = front ++ u :: back ∧
    u.placeholder ∉ front.map PlaceholderUse.placeholder

/-- The uses `u` and `v` of one placeholder stand at two positions, in this order. -/
def Repeats (uses : List PlaceholderUse) (u v : PlaceholderUse) : Prop :=
  u.placeholder = v.placeholder ∧ ∃ front back, uses = front ++ v :: back ∧ u ∈ front

def BothInExpansions (u v : PlaceholderUse) : Prop :=
  u.site.inExpansion = true ∧ v.site.inExpansion = true

theorem CallSite.site_of_mem_uses {s : CallSite} {u : PlaceholderUse} (hu : u ∈ s.uses) :
    u.site = s := by
  rcases List.mem_filterMap.mp hu with ⟨slot, _, hslot⟩
  unfold useAt? at hslot
  split at hslot
  · cases hslot
    rfl
  · cases hslot

theorem Block.site_mem_of_mem_allUses {blocks : List (Block Empty)} {u : PlaceholderUse}
    (hu : u ∈ allUses blocks) : u.site ∈ allCallSites blocks := by
  rcases List.mem_flatMap.mp hu with ⟨s, hs, hsite⟩
  rw [CallSite.site_of_mem_uses hsite]
  exact hs

namespace BindingState

variable {sources : Sources} {st st' : BindingState}
variable {behind uses rest : List PlaceholderUse} {u v : PlaceholderUse}

/-!
# The pass
-/

def SharesExpanded (uses : List PlaceholderUse) (st : BindingState) : Prop :=
  ∀ u ∈ uses, (∀ v ∈ uses, v.placeholder = u.placeholder → v.site.inExpansion = true) →
    u.placeholder ∈ st.shared

theorem SharesExpanded.again (h : SharesExpanded behind st)
    (hshared : u.placeholder ∈ st.shared) : SharesExpanded (behind ++ [u]) st := by
  intro v hv hexpanded
  rcases List.mem_append.mp hv with hold | hnew
  · exact h v hold fun w hw => hexpanded w (List.mem_append_left _ hw)
  · rw [List.mem_singleton.mp hnew]
    exact hshared

theorem SharesExpanded.first (h : SharesExpanded behind st) (bindings : Bindings) :
    SharesExpanded (behind ++ [u]) (st.record u.site.visited u.placeholder bindings) := by
  intro v hv hexpanded
  rcases List.mem_append.mp hv with hold | hnew
  · have hshared := h v hold fun w hw => hexpanded w (List.mem_append_left _ hw)
    unfold record
    split
    · exact List.mem_cons_of_mem _ hshared
    · exact hshared
  · rw [List.mem_singleton.mp hnew] at hexpanded ⊢
    have hu := hexpanded u (by simp) rfl
    simp [record, hu]

/-- What the pass knows about the uses behind it, and about those it shares. -/
structure Shared (sources : Sources) (behind : List PlaceholderUse) (st : BindingState) :
    Prop where
  binds : Binds sources behind st
  expanded : SharesExpanded behind st

namespace Shared

theorem start (sources : Sources) : Shared sources [] {} where
  binds := Binds.start sources
  expanded := by
    intro u hu
    cases hu

theorem step (h : Shared sources behind st) (hstep : st.bindUse sources u = .ok st') :
    Shared sources (behind ++ [u]) st' := by
  refine ⟨h.binds.step hstep, ?_⟩
  by_cases hbound : st.bindings.binds u.placeholder = true
  · rcases (bind_bound hbound).mp hstep with ⟨_, hshared, rfl⟩
    exact h.expanded.again hshared
  · cases hu : u.placeholder with
    | unknown index =>
        rcases (bind_unknown hu hbound).mp hstep with ⟨_, _, rfl⟩
        exact h.expanded.first _
    | lazy index =>
        rcases (bind_lazy hu hbound).mp hstep with ⟨_, _, rfl⟩
        exact h.expanded.first _

theorem mem_shared_iff (h : Shared sources behind st)
    (hused : u.placeholder ∈ behind.map PlaceholderUse.placeholder) :
    u.placeholder ∈ st.shared ↔
      ∀ v ∈ behind, v.placeholder = u.placeholder → v.site.inExpansion = true := by
  constructor
  · intro hshared v hv hsame
    exact h.binds.shares.expanded v hv (hsame ▸ hshared)
  · intro hexpanded
    rcases List.mem_map.mp hused with ⟨w, hw, hsame⟩
    rw [← hsame]
    apply h.expanded w hw
    intro v hv hplaceholder
    exact hexpanded v hv (hplaceholder.trans hsame)

theorem bindUse_again (h : Shared sources behind st)
    (hused : u.placeholder ∈ behind.map PlaceholderUse.placeholder)
    (hexpanded : ∀ v ∈ behind, v.placeholder = u.placeholder → BothInExpansions v u) :
    st.bindUse sources u = .ok st := by
  have hbound := (h.binds.binds_iff u.placeholder).mpr hused
  rcases List.mem_map.mp hused with ⟨w, hw, hsame⟩
  have hshared := (h.mem_shared_iff hused).mpr fun v hv hv' => (hexpanded v hv hv').left
  exact (bind_bound hbound).mpr ⟨(hexpanded w hw hsame).right, hshared, rfl⟩

theorem bindUse_refused (h : Shared sources behind st) (hv : v ∈ behind)
    (hsame : v.placeholder = u.placeholder) (hother : ¬ BothInExpansions v u) :
    st.bindUse sources u = .error (.placeholderRepeated u.placeholder) := by
  have hused : u.placeholder ∈ behind.map PlaceholderUse.placeholder :=
    List.mem_map.mpr ⟨v, hv, hsame⟩
  have hbound := (h.binds.binds_iff u.placeholder).mpr hused
  have hnot : ¬ (u.site.inExpansion = true ∧ u.placeholder ∈ st.shared) := by
    intro hboth
    apply hother
    exact ⟨(h.mem_shared_iff hused).mp hboth.right v hv hsame, hboth.left⟩
  unfold bindUse bind
  rw [if_pos hbound, if_neg (by simpa using hnot)]

/-- Where all first uses can be bound, the pass takes all uses or refuses one as a
repetition. -/
theorem bindUses_cases (h : Shared sources behind st)
    (hfirst : ∀ front u back, rest = front ++ u :: back →
      u.placeholder ∉ (behind ++ front).map PlaceholderUse.placeholder → Bindable sources u) :
    (∃ st', st.bindUses sources rest = .ok st') ∨
      ∃ u v, Repeats (behind ++ rest) u v ∧ ¬ BothInExpansions u v ∧
        st.bindUses sources rest = .error (.placeholderRepeated v.placeholder) := by
  induction rest generalizing behind st with
  | nil =>
      exact Or.inl ⟨st, rfl⟩
  | cons v rest ih =>
      have hnext : ∀ next, st.bindUse sources v = .ok next →
          (∃ st', st.bindUses sources (v :: rest) = .ok st') ∨
            ∃ u w, Repeats (behind ++ v :: rest) u w ∧ ¬ BothInExpansions u w ∧
              st.bindUses sources (v :: rest) = .error (.placeholderRepeated w.placeholder) := by
        intro next hstep
        have hlater := ih (h.step hstep) (by
          intro front u back hsplit hfresh
          apply hfirst (v :: front) u back (by rw [hsplit, List.cons_append])
          rwa [List.append_assoc] at hfresh)
        rw [bindUses_cons, hstep]
        rwa [List.append_assoc] at hlater
      by_cases hused : v.placeholder ∈ behind.map PlaceholderUse.placeholder
      · by_cases hexpanded : ∀ u ∈ behind, u.placeholder = v.placeholder → BothInExpansions u v
        · exact hnext st (h.bindUse_again hused hexpanded)
        · push Not at hexpanded
          rcases hexpanded with ⟨u, hu, hsame, hother⟩
          refine Or.inr ⟨u, v, ⟨hsame, behind, rest, rfl, hu⟩, hother, ?_⟩
          rw [bindUses_cons, h.bindUse_refused hu hsame hother]
          rfl
      · have hbindable := hfirst [] v rest rfl (by simpa using hused)
        have hfresh : ¬ st.bindings.binds v.placeholder = true := by
          rwa [h.binds.binds_iff]
        rcases (bindUse_succeeds_iff hfresh).mpr hbindable with ⟨next, hstep⟩
        exact hnext next hstep

end Shared

theorem bindable_of_bindUses (hpass : ({} : BindingState).bindUses sources uses = .ok st)
    (h : FirstUse uses u) : Bindable sources u := by
  rcases h with ⟨front, back, rfl, hfresh⟩
  rw [bindUses_append] at hpass
  rcases bind_eq_ok.mp hpass with ⟨middle, hfront, hrest⟩
  rw [bindUses_cons] at hrest
  rcases bind_eq_ok.mp hrest with ⟨next, hstep, _⟩
  have hbinds := (Binds.start sources).steps hfront
  have hunbound : ¬ middle.bindings.binds u.placeholder = true := by
    rwa [hbinds.binds_iff, List.nil_append]
  exact (bindUse_succeeds_iff hunbound).mp ⟨next, hstep⟩

theorem bothInExpansions_of_bindUses (hpass : ({} : BindingState).bindUses sources uses = .ok st)
    (h : Repeats uses u v) : BothInExpansions u v := by
  rcases h with ⟨hsame, front, back, rfl, hu⟩
  have hbinds := (Binds.start sources).steps hpass
  rw [List.nil_append] at hbinds
  have hcount : 1 < ((front ++ v :: back).map PlaceholderUse.placeholder).count v.placeholder := by
    have hfront : 0 < (front.map PlaceholderUse.placeholder).count v.placeholder :=
      List.count_pos_iff.mpr (List.mem_map.mpr ⟨u, hu, hsame⟩)
    simp only [List.map_append, List.map_cons, List.count_append, List.count_cons_self]
    omega
  have hshared := hbinds.shares.repeated _ hcount
  constructor
  · exact hbinds.shares.expanded u (List.mem_append_left _ hu) (hsame ▸ hshared)
  · exact hbinds.shares.expanded v (by simp) hshared

theorem bindUses_cases_of_firstUse (hfirst : ∀ u, FirstUse uses u → Bindable sources u) :
    (∃ st, ({} : BindingState).bindUses sources uses = .ok st) ∨
      ∃ u v, Repeats uses u v ∧ ¬ BothInExpansions u v ∧
        ({} : BindingState).bindUses sources uses =
          .error (.placeholderRepeated v.placeholder) := by
  apply (Shared.start sources).bindUses_cases
  intro front u back hsplit hfresh
  exact hfirst u ⟨front, back, hsplit, by simpa using hfresh⟩

end BindingState

/-!
# Sealing
-/

namespace Context

variable {c : Context} {u v : PlaceholderUse}

structure Unrollable (c : Context) : Prop where
  scopes : c.scopes = []
  data : c.data.isOpen = false
  accesses : ∀ a ∈ c.accesses, a.Expandable c.streams c.labels

def Coverable (c : Context) : Prop :=
  ∀ u, FirstUse c.uses u → BindingState.Bindable c.sources u

theorem seal_eq_ok_of_bindUses {t : SealedTemplate} :
    c.seal = .ok t ↔
      c.Unrollable ∧ ∃ st, ({} : BindingState).bindUses c.sources c.uses = .ok st ∧
        t = c.sealedWith c.unrolled st.bindings := by
  rw [seal_eq_ok]
  constructor
  · intro hparts
    rcases hparts with ⟨hscopes, hdata, phases, bindings, hphases, hbindings, ht⟩
    rcases expandRoots_eq_ok.mp hphases with ⟨haccesses, rfl⟩
    rcases Sources.resolve_eq_ok.mp hbindings with ⟨st, hst, rfl⟩
    exact ⟨⟨hscopes, hdata, haccesses⟩, st, hst, ht⟩
  · intro hparts
    rcases hparts with ⟨h, st, hst, ht⟩
    exact ⟨h.scopes, h.data, c.unrolled, st.bindings, expandRoots_eq_ok.mpr ⟨h.accesses, rfl⟩,
      Sources.resolve_eq_ok.mpr ⟨st, hst, rfl⟩, ht⟩

theorem uses_of_seal {t : SealedTemplate} (h : c.seal = .ok t) : t.uses = c.uses := by
  unfold SealedTemplate.uses Context.uses
  rw [(unrolled_of_seal h).right.left]

theorem seal_eq_error_of_bindUses (h : c.Unrollable) {cause : StructureFault}
    (hpass : ({} : BindingState).bindUses c.sources c.uses = .error cause) :
    c.seal = .error (.structural cause) := by
  have hclosed : c.checkClosed = .ok () := checkClosed_eq_ok.mpr ⟨h.scopes, h.data⟩
  have hfreeze : c.data.freeze = .ok c.data.layout := freeze_eq_ok.mpr ⟨h.data, rfl⟩
  have hexpand : (c.roots.mapExcept fun root => root.block.expand c.streams c.labels) =
      .ok c.unrolled :=
    expandRoots_eq_ok.mpr ⟨h.accesses, rfl⟩
  have hresolve : Sources.resolve ⟨c.options, c.labels, c.requests⟩ c.unrolled.toList =
      .error cause := by
    rw [Sources.resolve_eq_bindSites, BindingState.bindSites_eq]
    exact congrArg (· >>= fun st => pure st.bindings) hpass
  unfold Context.seal
  rw [hclosed, hfreeze, hexpand]
  change ((Sources.resolve ⟨c.options, c.labels, c.requests⟩ c.unrolled.toList).mapError
    Refusal.structural >>= fun bindings => pure (c.sealedWith c.unrolled bindings)) = _
  rw [hresolve]
  rfl

theorem inExpansion_iff (hrooted : Rooted c) (huser : UserBlocks c) (hu : u ∈ c.uses) :
    u.site.inExpansion = true ↔ ∃ a ∈ c.accesses, u.site.block? = some a.head := by
  constructor
  · exact access_of_inExpansion hrooted huser (Block.site_mem_of_mem_allUses hu)
  · intro hparts
    rcases hparts with ⟨a, _, hblock⟩
    have hhead : a.head ∈ u.site.path := List.mem_of_head? hblock
    exact List.any_eq_true.mpr ⟨a.head, hhead, rfl⟩

/-- Which placeholders a context may repeat. -/
structure RepeatsInExpansions (c : Context) : Prop where
  expansions : ∀ u ∈ c.uses,
    u.site.inExpansion = true ↔ ∃ a ∈ c.accesses, u.site.block? = some a.head
  sealed : ∀ t, c.seal = .ok t → t.uses = c.uses
  seals : (∃ t, c.seal = .ok t) ↔
    c.Unrollable ∧ c.Coverable ∧ ∀ u v, Repeats c.uses u v → BothInExpansions u v
  refused : c.Unrollable → c.Coverable →
    (∃ u v, Repeats c.uses u v ∧ ¬ BothInExpansions u v) →
    ∃ u v, Repeats c.uses u v ∧ ¬ BothInExpansions u v ∧
      c.seal = .error (.structural (.placeholderRepeated v.placeholder))

/-- Every build repeats placeholders in expansions, and nowhere else. -/
theorem run_repeatsInExpansions (name : String) (model : Model) (options : Options)
    (comments : CommentTokens) (commands : List Command) :
    RepeatsInExpansions ((start name model options comments).run commands) := by
  have hrooted := run_rooted (Rooted.start name model options comments) commands
  have huser := run_userBlocks (UserBlocks.initially name model options comments) commands
  refine ⟨fun u hu => inExpansion_iff hrooted huser hu, ?_, ?_, ?_⟩
  · intro t
    exact uses_of_seal
  · constructor
    · intro hseals
      rcases hseals with ⟨t, ht⟩
      rcases seal_eq_ok_of_bindUses.mp ht with ⟨hunrollable, st, hst, _⟩
      refine ⟨hunrollable, ?_, ?_⟩
      · intro u hu
        exact BindingState.bindable_of_bindUses hst hu
      · intro u v huv
        exact BindingState.bothInExpansions_of_bindUses hst huv
    · intro hparts
      rcases hparts with ⟨hunrollable, hcoverable, hrepeats⟩
      rcases BindingState.bindUses_cases_of_firstUse hcoverable with
        ⟨st, hst⟩ | ⟨u, v, huv, hother, _⟩
      · exact ⟨_, seal_eq_ok_of_bindUses.mpr ⟨hunrollable, st, hst, rfl⟩⟩
      · exact absurd (hrepeats u v huv) hother
  · intro hunrollable hcoverable hparts
    rcases hparts with ⟨u, v, huv, hother⟩
    rcases BindingState.bindUses_cases_of_firstUse hcoverable with
      ⟨st, hst⟩ | ⟨u', v', huv', hother', hpass⟩
    · exact absurd (BindingState.bothInExpansions_of_bindUses hst huv) hother
    · exact ⟨u', v', huv', hother', seal_eq_error_of_bindUses hunrollable hpass⟩

/-!
# Streams that share a register
-/

def ExpandsStream (c : Context) (id : StreamId) (u : PlaceholderUse) : Prop :=
  ∃ a ∈ c.accesses, a.stream = id ∧ u.site.block? = some a.head

/-- If the context seals, what is repeated is repeated in expansions of one stream. -/
def RepeatsWithinStreams (c : Context) : Prop :=
  ∀ t, c.seal = .ok t → ∀ u v, Repeats t.uses u v →
    ∃ id, c.ExpandsStream id u ∧ c.ExpandsStream id v

end Context

namespace SampleBuild

def sharing : List Command :=
  [.data (.configure ⟨".data", "M", 8⟩), .data .openSection, .data (.label "a"),
    .data (.label "b"), .data .closeSection, .addStreamPreparator preparator, .unknown,
    .bindStream "a" ⟨.mode, "reg", [.concrete 1]⟩ (register 0) 4,
    .bindStream "b" ⟨.mode, "reg", [.concrete 1]⟩ (register 0) 4]

end SampleBuild

theorem Context.not_repeatsWithinStreams_sharing :
    ¬ (SampleBuild.start.run SampleBuild.sharing).RepeatsWithinStreams := by
  intro hwithin
  let c := SampleBuild.start.run SampleBuild.sharing
  let first : BlockId := (BlockId.root.child 0).child 0
  let second : BlockId := (BlockId.root.child 0).child 1
  have hseals : c.seal.toOption.isSome = true := by
    decide
  have huses : (c.uses.map fun u => (u.placeholder, u.site.block?.map BlockHead.id)) =
      [(.unknown 0, some first), (.unknown 0, some second)] := by
    decide
  have hstreams : ∀ a ∈ c.accesses,
      (a.block = first → a.stream = ⟨0⟩) ∧ (a.block = second → a.stream = ⟨1⟩) := by
    decide
  have hblock : ∀ {id : StreamId} {u : PlaceholderUse} {block : BlockId},
      u.site.block?.map BlockHead.id = some block → c.ExpandsStream id u →
        ∃ a ∈ c.accesses, a.stream = id ∧ a.block = block := by
    intro id u block hu hstream
    rcases hstream with ⟨a, ha, hid, hsite⟩
    rw [hsite] at hu
    exact ⟨a, ha, hid, Option.some.inj hu⟩
  rcases Option.isSome_iff_exists.mp hseals with ⟨t, hsome⟩
  have ht := toOption_eq_some.mp hsome
  have hsame := uses_of_seal ht
  rcases List.map_eq_cons_iff.mp huses with ⟨u, rest, hc, hu, hrest⟩
  rcases List.map_eq_singleton_iff.mp hrest with ⟨v, rfl, hv⟩
  rw [Prod.mk.injEq] at hu hv
  have hrepeats : Repeats t.uses u v :=
    ⟨hu.left.trans hv.left.symm, [u], [], by rw [hsame, hc]; rfl, List.mem_singleton_self u⟩
  rcases hwithin t ht u v hrepeats with ⟨id, hfirst, hsecond⟩
  rcases hblock hu.right hfirst with ⟨a, ha, haid, hablock⟩
  rcases hblock hv.right hsecond with ⟨b, hb, hbid, hbblock⟩
  have hid : (⟨0⟩ : StreamId) = ⟨1⟩ :=
    ((hstreams a ha).left hablock).symm.trans
      (haid.trans (hbid.symm.trans ((hstreams b hb).right hbblock)))
  cases hid

end Stimulus
