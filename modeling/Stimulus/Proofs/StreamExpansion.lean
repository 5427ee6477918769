import Stimulus.Proofs.BoundStreams
import Stimulus.Proofs.LabelScopes
import Stimulus.Proofs.Unrolling

/-!
# Expansion of streams

## Accesses of a run

Every access in a tree was issued by an accepted command, under the identity that
was reserved for it then, and to a stream that was bound by then.

## Sealed trees

The trees of a sealed template are the built trees with every access replaced.  A
stream starts at its data label, and the rest of it is settled when it is bound.
-/

namespace Stimulus

def Command.access? : Command → Option (String × StreamPart)
  | .bindStream name _ _ _ => some (name, .init)
  | command => command.accessed?

theorem Node.accessesOf_append (front back : List (Node StreamAccess)) :
    Node.accessesOf (front ++ back) = Node.accessesOf front ++ Node.accessesOf back := by
  induction front with
  | nil =>
      rfl
  | cons n rest ih =>
      rw [List.cons_append, Node.accessesOf, Node.accessesOf, ih, List.append_assoc]

theorem Node.accessesOf_singleton (n : Node StreamAccess) : Node.accessesOf [n] = n.accesses := by
  rw [Node.accessesOf, Node.accessesOf, List.append_nil]

def Scope.accesses (s : Scope) : List StreamAccess :=
  Node.accessesOf s.children

theorem Scope.accesses_push (s : Scope) (n : Node StreamAccess) :
    (s.push n).accesses = s.accesses ++ n.accesses := by
  rw [accesses, push, Node.accessesOf_append, Node.accessesOf_singleton]
  rfl

namespace Context

variable {c next : Context} {commands : List Command} {command : Command}
variable {outcome : Except Refusal Reply} {a : StreamAccess}

/-!
# Accesses of a context
-/

def Holds (c : Context) (a : StreamAccess) : Prop :=
  (∃ p, a ∈ (c.roots.get p).accesses) ∨ ∃ s ∈ c.scopes, a ∈ s.accesses

theorem holds_top (h : a ∈ c.top.accesses) : c.Holds a := by
  cases hscopes : c.scopes with
  | nil =>
      rw [top_nil hscopes] at h
      exact Or.inl ⟨c.phase, h⟩
  | cons s rest =>
      rw [top_cons hscopes] at h
      exact Or.inr ⟨s, by simp [hscopes], h⟩

theorem holds_modifyTop {f : Scope → Scope} (h : (c.modifyTop f).Holds a) :
    c.Holds a ∨ a ∈ (f c.top).accesses := by
  cases hscopes : c.scopes with
  | nil =>
      rw [modifyTop_nil hscopes] at h
      rw [top_nil hscopes]
      rcases h with ⟨p, hp⟩ | ⟨s, hs, _⟩
      · simp only [PhaseTable.get_modify] at hp
        split at hp
        · rename_i hphase
          rw [← hphase] at hp
          exact Or.inr hp
        · exact Or.inl (Or.inl ⟨p, hp⟩)
      · rw [hscopes] at hs
        cases hs
  | cons s rest =>
      rw [modifyTop_cons hscopes] at h
      rw [top_cons hscopes]
      rcases h with hroot | ⟨s', hs', ha⟩
      · exact Or.inl (Or.inl hroot)
      · rcases List.mem_cons.mp hs' with rfl | hrest
        · exact Or.inr ha
        · exact Or.inl (Or.inr ⟨s', by simp [hscopes, hrest], ha⟩)

theorem holds_push {n : Node StreamAccess} (h : (c.push n).Holds a) :
    c.Holds a ∨ a ∈ n.accesses := by
  rcases holds_modifyTop h with hold | hnew
  · exact Or.inl hold
  · rw [Scope.accesses_push] at hnew
    rcases List.mem_append.mp hnew with htop | hn
    · exact Or.inl (holds_top htop)
    · exact Or.inr hn

theorem holds_replace {s s' : Scope} {rest : List Scope} (hscopes : c.scopes = s :: rest)
    (h : ({ c with scopes := s' :: rest } : Context).Holds a)
    (hchildren : s'.children = s.children) : c.Holds a := by
  rcases h with hroot | ⟨other, hother, ha⟩
  · exact Or.inl hroot
  · rcases List.mem_cons.mp hother with rfl | hrest
    · rw [Scope.accesses, hchildren] at ha
      exact Or.inr ⟨s, by simp [hscopes], ha⟩
    · exact Or.inr ⟨other, by simp [hscopes, hrest], ha⟩

theorem holds_pop {s : Scope} {rest : List Scope} (hscopes : c.scopes = s :: rest)
    (h : ({ c with scopes := rest } : Context).Holds a) : c.Holds a := by
  rcases h with hroot | ⟨other, hother, ha⟩
  · exact Or.inl hroot
  · exact Or.inr ⟨other, by simp [hscopes, hother], ha⟩

theorem holds_access {stream : StreamId} {part : StreamPart}
    (h : (c.access stream part).Holds a) :
    c.Holds a ∨ a = ⟨stream, part, c.top.nextId⟩ := by
  rcases holds_modifyTop h with hold | hnew
  · exact Or.inl hold
  · rw [Scope.accesses_push] at hnew
    rcases List.mem_append.mp hnew with htop | hlast
    · exact Or.inl (holds_top htop)
    · exact Or.inr (List.mem_singleton.mp hlast)

theorem access?_of_accessed {label : String} {part : StreamPart}
    (h : command.accessed? = some (label, part)) : command.access? = some (label, part) := by
  cases command with
  | bindStream label data index length => cases h
  | _ => exact h

theorem holds_of_step (h : Step c command outcome next) (ha : next.Holds a) :
    c.Holds a ∨ ∃ reply, outcome = .ok reply ∧ ∃ stream ∈ next.streams.bound,
      stream.id = a.stream ∧ command.access? = some (stream.label, a.part) ∧
        c.top.nextId = a.block := by
  cases h with
  | refused => exact Or.inl ha
  | dropped hscopes => exact Or.inl (holds_pop hscopes ha)
  | answered _ => exact Or.inl ha
  | advanced _ _ _ => exact Or.inl ha
  | @opened kind requested =>
      have hreserved : (c.modifyTop Scope.reserve).Holds a := by
        rcases ha with hroot | ⟨s, hs, ha⟩
        · exact Or.inl hroot
        · rcases List.mem_cons.mp hs with rfl | hrest
          · cases ha
          · exact Or.inr ⟨s, hrest, ha⟩
      rcases holds_modifyTop hreserved with hold | htop
      · exact Or.inl hold
      · exact Or.inl (holds_top htop)
  | @closed s rest hscopes _ _ =>
      rcases holds_push ha with hold | hnew
      · exact Or.inl (holds_pop hscopes hold)
      · exact Or.inl (Or.inr ⟨s, by simp [hscopes], hnew⟩)
  | covered hscopes _ => exact Or.inl (holds_replace hscopes ha rfl)
  | unknownIssued => exact Or.inl ha
  | lazyIssued => exact Or.inl ha
  | called _ =>
      rcases holds_push ha with hold | hnew
      · exact Or.inl hold
      · cases hnew
  | @attached situation call front hchildren _ =>
      rcases holds_modifyTop ha with hold | hnew
      · exact Or.inl hold
      · have htop : a ∈ c.top.accesses := by
          rw [Scope.accesses, hchildren, Node.accessesOf_append]
          rw [Scope.accesses, Node.accessesOf_append] at hnew
          exact hnew
        exact Or.inl (holds_top htop)
  | @labelled name labels _ =>
      rcases holds_push ha with hold | hnew
      · exact Or.inl hold
      · cases hnew
  | @placed command node hleaf =>
      have hnone : node.accesses = [] := by
        cases command <;> cases hleaf <;> rfl
      rcases holds_push ha with hold | hnew
      · exact Or.inl hold
      · rw [hnone] at hnew
        cases hnew
  | constraintOpened hscopes _ _ => exact Or.inl (holds_replace hscopes ha rfl)
  | constraintClosed hscopes _ => exact Or.inl (holds_replace hscopes ha rfl)
  | constrained hscopes _ _ hscope =>
      rcases Scope.constrain_eq_ok.mp hscope with ⟨_, _, rfl⟩
      exact Or.inl (holds_replace hscopes ha rfl)
  | streamPrepared _ => exact Or.inl ha
  | registerPrepared _ => exact Or.inl ha
  | @streamBound label data index length stream streams hbind =>
      rcases Streams.bind_eq_ok.mp hbind with ⟨_, _, _, _, preparator, _, hstream, hstreams⟩
      rcases holds_access ha with hold | rfl
      · exact Or.inl hold
      · refine Or.inr ⟨_, rfl, stream, ?_, rfl, ?_, rfl⟩
        · simp [access, hstreams]
        · rw [hstream]
          rfl
  | @streamAccessed command label part stream hcommand hstream =>
      rcases holds_access ha with hold | rfl
      · exact Or.inl hold
      · refine Or.inr ⟨_, rfl, stream, ?_, rfl, ?_, rfl⟩
        · simpa [access] using List.mem_of_find?_eq_some hstream
        · rw [access?_of_accessed hcommand, Streams.find?_label hstream]
  | dataPerformed _ _ => exact Or.inl ha
  | dataLabelled _ _ => exact Or.inl ha
  | optionSet _ => exact Or.inl ha

/-- The access was issued in the run, under the identity that was next in the innermost
scope, for a stream that was bound by then. -/
def IssuesAccess (c : Context) (commands : List Command) (a : StreamAccess)
    (stream : BoundStream) : Prop :=
  ∃ before command reply, c.Accepted commands before command reply ∧
    command.access? = some (stream.label, a.part) ∧ stream.id = a.stream ∧
    (c.run before).top.nextId = a.block ∧ c.BindsStream (before ++ [command]) stream

theorem holds_of_mem_accesses (h : a ∈ c.accesses) : c.Holds a := by
  rcases List.mem_flatMap.mp h with ⟨b, hb, ha⟩
  rcases PhaseTable.mem_toList.mp hb with ⟨p, rfl⟩
  rw [built, PhaseTable.get_map] at ha
  exact Or.inl ⟨p, ha⟩

section

variable {name : String} {model : Model} {options : Options} {comments : CommentTokens}

theorem issuesAccess_of_mem
    (h : a ∈ ((start name model options comments).run commands).accesses) :
    ∃ stream, (start name model options comments).IssuesAccess commands a stream := by
  have hissued := exists_accepted
    (P := fun next => next.Holds a)
    (R := fun before command _ => ∃ stream ∈
        ((start name model options comments).run (before ++ [command])).streams.bound,
      stream.id = a.stream ∧ command.access? = some (stream.label, a.part) ∧
        ((start name model options comments).run before).top.nextId = a.block)
    ?_ ?_ (holds_of_mem_accesses h)
  · rcases hissued with
      ⟨before, command, reply, haccepted, stream, hstream, hid, haccess, hblock⟩
    have hbound := (bindsStream_iff_mem rfl rfl).mpr hstream
    exact ⟨stream, before, command, reply, haccepted, haccess, hid, hblock, hbound⟩
  · intro before command outcome hstep hnext
    exact holds_of_step hstep hnext
  · intro hparts
    rcases hparts with ⟨p, hp⟩ | ⟨s, hs, _⟩
    · cases p <;> cases hp
    · cases hs

/-- The stream that an access was issued for is the one that it names in the end. -/
theorem get?_of_issuesAccess {stream : BoundStream}
    (h : (start name model options comments).IssuesAccess commands a stream) :
    ((start name model options comments).run commands).streams.get? a.stream = some stream := by
  rcases h with ⟨before, command, _, ⟨after, hcommands, _⟩, _, hid, _, hbound⟩
  have hcoherent : ((start name model options comments).run commands).streams.Coherent :=
    run_coherent .empty commands
  have hthen := (bindsStream_iff_mem rfl rfl).mp hbound
  have hnow := bound_of_run hthen after
  rw [← run_append, List.append_assoc, List.singleton_append, ← hcommands] at hnow
  exact hcoherent.get?_eq_some.mpr ⟨hnow, hid⟩

end

end Context

/-!
# Sealed trees
-/

theorem Labels.startOf_eq {t : Labels} {label : String} {address : UInt64}
    (h : t.dataAddress label = .ok address) : t.startOf label = address := by
  rw [startOf, h]

/-- How the trees of `t` come from the trees that `commands` built, and where the
accesses in these come from. -/
structure ExpandsStreams (c : Context) (commands : List Command) (t : SealedTemplate) :
    Prop where
  trees : t.phases =
    (c.run commands).built.map (Block.unrolled (t.streams.calls t.labels.startOf))
  issued : ∀ a ∈ (c.run commands).accesses, ∃ stream,
    t.streams.get? a.stream = some stream ∧ c.IssuesAccess commands a stream
  started : ∀ a ∈ (c.run commands).accesses, ∀ stream,
    t.streams.get? a.stream = some stream → ∀ address,
      c.LabelsData commands stream.label address ↔ address = t.labels.startOf stream.label
  fits : ∀ a ∈ (c.run commands).accesses, ∀ stream,
    t.streams.get? a.stream = some stream → stream.NeedsStart a.part →
      (t.labels.startOf stream.label).toNat < 2 ^ 63

section

variable {name : String} {model : Model} {options : Options} {comments : CommentTokens}
variable {commands : List Command} {t : SealedTemplate}

/-- Sealing replaces the accesses in the built trees, and nothing else. -/
theorem expandsStreams_of_seal
    (h : ((Context.start name model options comments).run commands).seal = .ok t) :
    ExpandsStreams (Context.start name model options comments) commands t := by
  rcases Context.unrolled_of_seal h with ⟨hexpandable, hphases, hlabels, hstreams⟩
  have hstarted : ∀ a ∈ ((Context.start name model options comments).run commands).accesses,
      ∀ stream, t.streams.get? a.stream = some stream → stream.Started t.labels a.part := by
    intro a ha stream hstream
    rcases hexpandable a ha with ⟨found, hfound, hstarted⟩
    rw [hstreams, hfound] at hstream
    cases hstream
    rw [hlabels]
    exact hstarted
  constructor
  · rw [hphases, hlabels, hstreams]
    rfl
  · intro a ha
    rcases Context.issuesAccess_of_mem ha with ⟨stream, hissued⟩
    refine ⟨stream, ?_, hissued⟩
    rw [hstreams]
    exact Context.get?_of_issuesAccess hissued
  · intro a ha stream hstream address
    rcases hstarted a ha stream hstream with ⟨found, hfound, _⟩
    rw [Context.labelsData_iff_dataAddress, ← hlabels, Labels.startOf_eq hfound, hfound]
    simp [eq_comm]
  · intro a ha stream hstream hneeds
    rcases hstarted a ha stream hstream with ⟨found, hfound, hfits⟩
    rw [Labels.startOf_eq hfound]
    exact hfits hneeds

end

theorem expandsStreams_of_seal_sample :
    ∃ t, (SampleBuild.start.run SampleBuild.commands).seal = .ok t ∧
      ExpandsStreams SampleBuild.start SampleBuild.commands t := by
  rcases SampleBuild.seals with ⟨t, ht⟩
  exact ⟨t, ht, expandsStreams_of_seal ht⟩

end Stimulus
