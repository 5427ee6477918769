import Stimulus.Proofs.ModelNames
import Stimulus.Proofs.ScopeOrigins
import Stimulus.Proofs.SealedBlocks
import Stimulus.Proofs.StreamExpansion

/-!
# Calls of the model

## Built calls

A call that a user issues enters the tree under the canonical name of its instruction.
Attaching a situation later does not change what is called.

## Preparators

Preparators are registered in the spelling of the model, whatever they replace, and a
stream keeps the preparator that it was bound with.  So the calls that they are expanded
to, and the calls that load a register, are calls of the model as well.
-/

namespace Stimulus

/-!
# Built calls
-/

def Block.CallsModel {α : Type} (model : Model) (b : Block α) : Prop :=
  ∀ call ∈ b.calls, call.primitive.IsCallOf model

namespace Scope

theorem calls_push (s : Scope) (n : Node StreamAccess) :
    (s.push n).block.calls = s.block.calls ++ n.call?.toList := by
  have hcalls : [n].filterMap Node.call? = n.call?.toList := by
    cases n <;> rfl
  rw [Block.calls, Block.calls, block, push, List.filterMap_append, hcalls]
  rfl

theorem callsModel_push {model : Model} {s : Scope} {n : Node StreamAccess}
    (hs : s.block.CallsModel model)
    (hn : ∀ call, n.call? = some call → call.primitive.IsCallOf model) :
    (s.push n).block.CallsModel model := by
  intro call hcall
  rw [calls_push] at hcall
  rcases List.mem_append.mp hcall with hold | hnew
  · exact hs call hold
  · exact hn call (Option.mem_toList.mp hnew)

theorem Origin.callsModel {c : Context} {s : Scope} (h : s.Origin c) (hmodel : c.model.Keyed)
    (hscopes : ∀ s ∈ c.allScopes, s.block.CallsModel c.model) : s.block.CallsModel c.model := by
  have htop := hscopes c.top c.top_mem
  cases h with
  | kept hs => exact hscopes _ hs
  | reserved => exact htop
  | opened kind requested =>
      intro call hcall
      cases hcall
  | closed _ houter _ =>
      apply callsModel_push (hscopes _ houter)
      intro call hcall
      cases hcall
  | covered _ => exact htop
  | constraining _ => exact htop
  | constrained _ _ hscope =>
      rcases Scope.constrain_eq_ok.mp hscope with ⟨_, _, rfl⟩
      exact htop
  | called hentry =>
      apply callsModel_push htop
      intro call hcall
      cases hcall
      exact ⟨rfl, hmodel.lists_resolve hentry⟩
  | @attached front last situation hchildren =>
      have hlast : c.top.block = ({ c.top with children := front }.push (.call last)).block := by
        rw [block, hchildren]
        rfl
      rw [hlast] at htop
      apply callsModel_push (s := { c.top with children := front })
      · intro call hcall
        apply htop
        rw [calls_push]
        exact List.mem_append_left _ hcall
      · intro call hcall
        cases hcall
        apply htop last
        rw [calls_push]
        exact List.mem_append_right _ (List.mem_singleton_self last)
  | placed _ hcall =>
      apply callsModel_push htop
      intro call hsome
      rw [hcall] at hsome
      cases hsome
  | accessed stream part =>
      apply callsModel_push htop
      intro call hcall
      cases hcall

end Scope

namespace Context

variable {name : String} {model : Model} {options : Options} {comments : CommentTokens}
variable {commands : List Command}

theorem run_callsModel (hmodel : model.Keyed) (name : String) (options : Options)
    (comments : CommentTokens) (commands : List Command) :
    ∀ s ∈ ((start name model options comments).run commands).allScopes,
      ∀ b ∈ s.block.allBlocks, b.CallsModel model := by
  apply run_blocks (R := fun s => s.block.CallsModel model) (P := Block.CallsModel model)
  · exact fun _ h => h
  · intro p call hcall
    cases hcall
  · intro c hsame hscopes s horigin
    rw [← hsame] at hmodel hscopes ⊢
    exact horigin.callsModel hmodel hscopes

/-!
# Calls of streams
-/

theorem fits_of_lastRegistered (hmodel : model.Keyed) {key : StreamKey} {p : StreamPreparator}
    (h : lastRegistered model commands key = some p) (part : StreamPart) :
    ∀ pattern ∈ p.part part, pattern.Fits model := by
  have hregistered := (List.mem_filter.mp (List.mem_of_getLast? h)).left
  rcases List.mem_filterMap.mp hregistered with ⟨command, _, hcommand⟩
  cases command with
  | addStreamPreparator p =>
      exact StreamPreparator.fits_canonical hmodel (Checked.toOption_eq_some.mp hcommand) part
  | _ => cases hcommand

theorem isCallOf_of_access (hmodel : model.Keyed) {a : StreamAccess} {p : Primitive}
    (h : p ∈ ((start name model options comments).run commands).callsOf a) :
    p.IsCallOf model := by
  rcases Streams.mem_calls h with ⟨stream, hstream, pattern, hpattern, rfl⟩
  have hbound := (bindsStream_iff_mem rfl rfl).mpr (List.mem_of_getElem? hstream)
  rcases hbound with ⟨before, _, hregistered⟩
  exact (fits_of_lastRegistered hmodel hregistered a.part pattern hpattern).subst _

/-!
# Calls of register preparators
-/

theorem registerPreparators_of_step {c next : Context} {command : Command}
    {outcome : Except Refusal Reply} (h : Step c command outcome next) :
    next.registerPreparators = c.registerPreparators ∨
      ∃ p p' : RegisterPreparator, p.canonical c.model = .ok p' ∧
        next.registerPreparators = c.registerPreparators.register p' := by
  cases h with
  | registerPrepared hcanonical => exact Or.inr ⟨_, _, hcanonical, rfl⟩
  | _ => exact Or.inl (by simp [push, access])

theorem run_registerPreparators (hmodel : model.Keyed) (name : String) (options : Options)
    (comments : CommentTokens) (commands : List Command) :
    ∀ p ∈ ((start name model options comments).run commands).registerPreparators.toList,
      p.Fits model := by
  apply And.right
  apply run_invariant
    (I := fun c => c.model = model ∧ ∀ p ∈ c.registerPreparators.toList, p.Fits model)
  · intro c command outcome next hbefore hstep
    rcases hbefore with ⟨hsame, hfits⟩
    refine ⟨(model_of_step hstep).trans hsame, ?_⟩
    rcases registerPreparators_of_step hstep with hkept | ⟨p, p', hcanonical, hregister⟩
    · rw [hkept]
      exact hfits
    · rw [hsame] at hcanonical
      rw [hregister]
      intro q hq
      rcases RegisterStore.mem_toList_register hq with rfl | hold
      · exact RegisterPreparator.fits_canonical hmodel hcanonical
      · exact hfits q hold
  · refine ⟨rfl, ?_⟩
    intro p hp
    cases hp

end Context

/-!
# Sealed templates
-/

/-- All that a sealed template calls, and all that its register preparators come to call,
are instructions of the model under their canonical names, with the arguments that they
take. -/
structure CallsModel (model : Model) (t : SealedTemplate) : Prop where
  calls : ∀ s ∈ t.callSites, s.call.primitive.IsCallOf model
  targets : ∀ p ∈ t.registerPreparators.toList, ∃ arity, model.Lists .mode p.target arity
  loads : ∀ p ∈ t.registerPreparators.toList, ∀ target value calls,
    p.instantiate target value = .ok calls → ∀ q ∈ calls, q.IsCallOf model

section

variable {name modelName : String} {entries : List ModelEntry} {options : Options}
variable {comments : CommentTokens} {commands : List Command} {t : SealedTemplate}

/-- Whatever a model defines, in every template that a build for it seals to, all calls
are calls of the model. -/
theorem callsModel_of_seal
    (h : ((Context.start name (.ofEntries modelName entries) options comments).run
      commands).seal = .ok t) :
    CallsModel (.ofEntries modelName entries) t := by
  have hmodel := Model.keyed_ofEntries modelName entries
  have hstore : t.registerPreparators =
      ((Context.start name (.ofEntries modelName entries) options comments).run
        commands).registerPreparators := by
    rcases Context.seal_eq_ok.mp h with ⟨_, _, phases, bindings, _, _, ht⟩
    rw [ht]
    rfl
  have hfits := Context.run_registerPreparators hmodel name options comments commands
  rw [← hstore] at hfits
  constructor
  · intro s hs
    rcases Context.built_or_pattern_of_seal h hs with
      ⟨scope, hscope, b, hb, hcall⟩ | ⟨a, _, p, hp, hcall⟩
    · exact Context.run_callsModel hmodel name options comments commands scope hscope b hb _ hcall
    · rw [hcall]
      exact Context.isCallOf_of_access hmodel hp
  · intro p hp
    exact (hfits p hp).target
  · intro p hp target value calls hcalls
    exact (hfits p hp).instantiate hcalls

end

def SampleBuild.withRegisters : List Command :=
  let load (mnemonic : String) (count : Nat) : RegisterPreparator :=
    ⟨"Reg", none, [⟨mnemonic, .hole .target :: List.replicate count (.hole (.value .whole))⟩]⟩
  SampleBuild.commands ++
    [.addRegisterPreparator (load "J" 0), .addRegisterPreparator (load "LW" 1),
      .addRegisterPreparator (load "LW" 2), .readStream "table"]

theorem callsModel_of_seal_sample :
    ∃ t, (SampleBuild.start.run SampleBuild.withRegisters).seal = .ok t ∧
      (t.callSites.map fun s => s.call.primitive.name) = ["la", "add", "j", "lw"] ∧
      (t.registerPreparators.toList.map fun p =>
        (p.target, p.instantiate ⟨.mode, "REG", [.concrete 1]⟩ 7)) =
          [("reg", .ok [⟨.instruction, "lw",
            [.primitive .mode "REG" [.concrete 1], .concrete 7]⟩])] ∧
      CallsModel SampleBuild.model t := by
  have hcalls : ((SampleBuild.start.run SampleBuild.withRegisters).seal.toOption.map
      fun t => (t.callSites.map fun s => s.call.primitive.name,
        t.registerPreparators.toList.map fun p =>
          (p.target, p.instantiate ⟨.mode, "REG", [.concrete 1]⟩ 7))) =
      some (["la", "add", "j", "lw"],
        [("reg", .ok [⟨.instruction, "lw",
          [.primitive .mode "REG" [.concrete 1], .concrete 7]⟩])]) := by
    decide +kernel
  rcases Option.map_eq_some_iff.mp hcalls with ⟨t, hsome, hvalues⟩
  rcases Prod.mk.inj hvalues with ⟨hnames, hloads⟩
  have ht := Checked.toOption_eq_some.mp hsome
  exact ⟨t, ht, hnames, hloads, callsModel_of_seal ht⟩

end Stimulus
