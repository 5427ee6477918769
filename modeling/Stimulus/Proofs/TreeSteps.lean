import Stimulus.Proofs.OpenScopes

/-!
# Steps on trees

## Changes of one scope

Where no block begins or ends, a step leaves the trees as they are or changes the
innermost scope.  `Scope.Change` lists these changes, each with the code labels that
it declares.

## Changes of the trees

`TreeStep` says what a step does to the roots, to the open scopes and to the code
labels, so that a law of the trees need not look at every command.
-/

namespace Stimulus

/-!
# Code labels
-/

def Labels.code (t : Labels) : List LabelDeclaration :=
  t.entries.filter fun e => e.place.address?.isNone

theorem Labels.code_declareAt {t t' : Labels} {name : String} {scope : BlockId}
    {position : Nat} (h : t.declareAt name scope position = .ok t') :
    t'.code = t.code ++ [⟨name, scope, .code scope position⟩] := by
  unfold declareAt declare at h
  split at h
  · cases h
  · cases h
    rw [code, List.filter_append]
    rfl

theorem Labels.code_declareAddress {t t' : Labels} {name : String} {address : UInt64}
    (h : t.declareAddress name address = .ok t') : t'.code = t.code := by
  unfold declareAddress declare at h
  split at h
  · cases h
  · cases h
    rw [code, List.filter_append]
    exact List.append_nil _

/-!
# Nodes as they are appended
-/

namespace Node

variable {α : Type}

def Fresh : Node α → Prop
  | .call c => c.situation = none
  | .block _ _ => False
  | .access _ => False
  | _ => True

def declared (parent : BlockId) (position : Nat) : Node α → List LabelDeclaration
  | .label name => [⟨name, parent, .code parent position⟩]
  | _ => []

end Node

/-!
# Changes of one scope
-/

/-- What a command does to the innermost scope when no block begins or ends, and the
code labels that it declares. -/
inductive Scope.Change (s : Scope) : Scope → List LabelDeclaration → Prop where
  | covered {situation : Situation} (hsituation : s.head.situation = none) :
      Change s { s with head := { s.head with situation := some situation } } []
  | constraining (opened : Bool) : Change s { s with constraining := opened } []
  | constrained {s' : Scope} {model : Model} {a : Allocation}
      (hscope : s.constrain model a = .ok s') : Change s s' []
  | attached {front : List (Node StreamAccess)} {call : Call} {situation : Situation}
      (hchildren : s.children = front ++ [.call call]) (hsituation : call.situation = none) :
      Change s
        { s with children := front ++ [.call { call with situation := some situation }] } []
  | pushed {n : Node StreamAccess} (hfresh : n.Fresh) :
      Change s (s.push n) (n.declared s.head.id s.children.length)
  | accessed (stream : StreamId) (part : StreamPart) :
      Change s (s.reserve.push (.access ⟨stream, part, s.nextId⟩)) []

namespace Scope.Change

variable {s s' : Scope} {added : List LabelDeclaration}

theorem id_eq (h : s.Change s' added) : s'.head.id = s.head.id := by
  cases h with
  | constrained hscope =>
      rcases Scope.constrain_eq_ok.mp hscope with ⟨_, _, rfl⟩
      rfl
  | _ => rfl

end Scope.Change

/-!
# Changes of the trees
-/

namespace Context

structure SameTrees (c c' : Context) : Prop where
  phase : c.phase = c'.phase
  roots : c.roots = c'.roots
  scopes : c.scopes = c'.scopes

theorem SameTrees.refl (c : Context) : SameTrees c c :=
  ⟨rfl, rfl, rfl⟩

theorem SameTrees.top {c c' : Context} (h : SameTrees c c') : c.top = c'.top := by
  unfold Context.top
  rw [h.phase, h.roots, h.scopes]

theorem SameTrees.modifyTop {c c' : Context} (h : SameTrees c c') (f : Scope → Scope) :
    SameTrees (c.modifyTop f) (c'.modifyTop f) := by
  cases hscopes : c'.scopes with
  | nil =>
      rw [modifyTop_nil hscopes, modifyTop_nil (h.scopes.trans hscopes)]
      refine ⟨h.phase, ?_, h.scopes⟩
      rw [h.phase, h.roots]
  | cons s rest =>
      rw [modifyTop_cons hscopes, modifyTop_cons (h.scopes.trans hscopes)]
      exact ⟨h.phase, h.roots, rfl⟩

theorem SameTrees.eq_modifyTop {c : Context} {s s' : Scope} {rest : List Scope}
    (hscopes : c.scopes = s :: rest) :
    SameTrees { c with scopes := s' :: rest } (c.modifyTop fun _ => s') := by
  rw [modifyTop_cons hscopes]
  exact SameTrees.refl _

theorem modifyTop_const (c : Context) (f : Scope → Scope) :
    c.modifyTop f = c.modifyTop fun _ => f c.top := by
  cases hscopes : c.scopes with
  | nil =>
      rw [modifyTop_nil hscopes, modifyTop_nil hscopes, top_nil hscopes]
      cases hphase : c.phase <;> rfl
  | cons s rest =>
      rw [modifyTop_cons hscopes, modifyTop_cons hscopes, top_cons hscopes]

end Context

/-- What a step does to the trees of `c` and to its code labels, if it loses no block. -/
inductive TreeStep (c next : Context) : Prop where
  | kept (htrees : next.SameTrees c) (hlabels : next.labels.code = c.labels.code)
  | advanced (hscopes : c.scopes = []) (hnext : next.scopes = []) (hroots : next.roots = c.roots)
      (hlabels : next.labels.code = c.labels.code)
  | changed {s' : Scope} {added : List LabelDeclaration} (hchange : c.top.Change s' added)
      (htrees : next.SameTrees (c.modifyTop fun _ => s'))
      (hlabels : next.labels.code = c.labels.code ++ added)
  | opened {kind : ScopeKind} {requested : BlockAttributes}
      (hnext : next = { c.modifyTop Scope.reserve with
        scopes := c.top.nested kind requested :: (c.modifyTop Scope.reserve).scopes })
  | closed {s : Scope} {rest : List Scope} (hscopes : c.scopes = s :: rest)
      (hconstraining : s.constraining = false) (hcover : s.block.checkCover = .ok ())
      (hnext : next = { c with scopes := rest }.push s.block.toNode)

/-- The step is the end of a block that is refused, so that the innermost scope is lost. -/
def DropsScope (c next : Context) (command : Command) (outcome : Except Refusal Reply) : Prop :=
  ∃ s rest cause, c.scopes = s :: rest ∧ command = .closeBlock ∧ outcome = .error cause ∧
    next = { c with scopes := rest }

namespace TreeStep

variable {c next : Context} {command : Command} {outcome : Except Refusal Reply}

theorem unchanged (c : Context) : TreeStep c c :=
  .kept (.refl c) rfl

theorem pushed {n : Node StreamAccess} (hfresh : n.Fresh)
    (htrees : next.SameTrees (c.push n))
    (hlabels : next.labels.code = c.labels.code ++ n.declared c.top.head.id c.top.children.length) :
    TreeStep c next := by
  unfold Context.push at htrees
  rw [Context.modifyTop_const] at htrees
  exact .changed (.pushed hfresh) htrees hlabels

theorem accessed {stream : StreamId} {part : StreamPart}
    (htrees : next.SameTrees (c.access stream part))
    (hlabels : next.labels.code = c.labels.code) : TreeStep c next := by
  unfold Context.access at htrees
  rw [Context.modifyTop_const] at htrees
  refine .changed (.accessed stream part) htrees ?_
  rw [hlabels, List.append_nil]

theorem replaced {s s' : Scope} {rest : List Scope} (hscopes : c.scopes = s :: rest)
    (hchange : s.Change s' []) : TreeStep c { c with scopes := s' :: rest } := by
  rw [← Context.top_cons hscopes] at hchange
  refine .changed hchange (.eq_modifyTop hscopes) ?_
  rw [List.append_nil]

end TreeStep

/-- A step is one of those on trees, or it loses the innermost scope. -/
theorem Step.tree {c next : Context} {command : Command} {outcome : Except Refusal Reply}
    (h : Step c command outcome next) :
    TreeStep c next ∨ DropsScope c next command outcome := by
  cases h with
  | refused => exact Or.inl (.unchanged c)
  | dropped hscopes => exact Or.inr ⟨_, _, _, hscopes, rfl, rfl, rfl⟩
  | answered _ => exact Or.inl (.unchanged c)
  | advanced _ hscopes _ => exact Or.inl (.advanced hscopes hscopes rfl rfl)
  | opened => exact Or.inl (.opened rfl)
  | closed hscopes hconstraining hcover =>
      exact Or.inl (.closed hscopes hconstraining hcover rfl)
  | covered hscopes hsituation => exact Or.inl (.replaced hscopes (.covered hsituation))
  | unknownIssued => exact Or.inl (.kept ⟨rfl, rfl, rfl⟩ rfl)
  | lazyIssued => exact Or.inl (.kept ⟨rfl, rfl, rfl⟩ rfl)
  | @called name args entry _ =>
      have hfresh : Node.Fresh (.call ⟨⟨.instruction, entry.name, args⟩, none⟩ :
          Node StreamAccess) := rfl
      refine Or.inl (.pushed hfresh (.refl _) ?_)
      simp [Context.push, Node.declared]
  | attached hchildren hsituation =>
      refine Or.inl (.changed (.attached hchildren hsituation) (.refl _) ?_)
      simp
  | @labelled name labels hlabels =>
      have hsame : Context.SameTrees { c with labels } c := ⟨rfl, rfl, rfl⟩
      refine Or.inl (.pushed (n := .label name) trivial (hsame.modifyTop _) ?_)
      rw [Node.declared, ← Labels.code_declareAt hlabels]
      simp [Context.push]
  | @placed command node hleaf =>
      have hnode : node.Fresh ∧ ∀ parent position, node.declared parent position = [] := by
        cases command <;> cases hleaf <;> exact ⟨trivial, fun _ _ => rfl⟩
      refine Or.inl (.pushed hnode.left (.refl _) ?_)
      rw [hnode.right]
      simp [Context.push]
  | constraintOpened hscopes _ _ => exact Or.inl (.replaced hscopes (.constraining true))
  | constraintClosed hscopes _ => exact Or.inl (.replaced hscopes (.constraining false))
  | constrained hscopes _ _ hscope => exact Or.inl (.replaced hscopes (.constrained hscope))
  | streamPrepared _ => exact Or.inl (.kept ⟨rfl, rfl, rfl⟩ rfl)
  | registerPrepared _ => exact Or.inl (.kept ⟨rfl, rfl, rfl⟩ rfl)
  | @streamBound label data index length stream streams _ =>
      have hsame : Context.SameTrees { c with streams } c := ⟨rfl, rfl, rfl⟩
      have htrees : Context.SameTrees ({ c with streams }.access stream.id .init)
          (c.access stream.id .init) := hsame.modifyTop _
      refine Or.inl (.accessed htrees ?_)
      simp [Context.access]
  | streamAccessed _ _ =>
      refine Or.inl (.accessed (.refl _) ?_)
      simp [Context.access]
  | dataPerformed _ _ => exact Or.inl (.kept ⟨rfl, rfl, rfl⟩ rfl)
  | dataLabelled _ hlabels =>
      exact Or.inl (.kept ⟨rfl, rfl, rfl⟩ (Labels.code_declareAddress hlabels))
  | optionSet _ => exact Or.inl (.kept ⟨rfl, rfl, rfl⟩ rfl)

end Stimulus
