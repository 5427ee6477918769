import Mathlib.Data.List.Nodup
import Stimulus.Proofs.History
import Stimulus.Proofs.Insertions

/-!
# Bound streams

## Registration

Of the preparators that were registered under one key, the last one counts.

## Binding

A stream takes the preparator that counts when it is bound, and is found under its
label and by its identity from then on.  What is registered later does not change it.
-/

namespace Stimulus

namespace Streams

variable {t t' : Streams} {registry : StreamRegistry} {label : String}
variable {data index : Primitive} {length : Nat} {stream : BoundStream}

theorem bind_eq_ok :
    t.bind registry label data index length = .ok (stream, t') ↔
      data.kind = .mode ∧ index.kind = .mode ∧ length ≠ 0 ∧ t.find? label = none ∧
        ∃ preparator,
          registry.get? (StreamKey.ofNames data.name index.name) = some preparator ∧
            stream = ⟨⟨t.bound.length⟩, label, data, index, length, preparator⟩ ∧
            t' = ⟨t.bound ++ [stream]⟩ := by
  unfold bind StreamRegistry.find
  by_cases hdata : data.kind = .mode
  · by_cases hindex : index.kind = .mode
    · by_cases hlength : length = 0
      · simp [hdata, hindex, hlength]
      · cases hfind : t.find? label with
        | some other =>
            simp [hdata, hindex, hlength]
        | none =>
            cases registry.get? (StreamKey.ofNames data.name index.name) with
            | none =>
                simp [hdata, hindex, hlength]
            | some preparator =>
                simp only [hdata, hindex, hlength]
                constructor
                · intro h
                  cases h
                  exact ⟨trivial, trivial, hlength, trivial, preparator, rfl, rfl, rfl⟩
                · intro hparts
                  rcases hparts with ⟨_, _, _, _, other, hother, rfl, rfl⟩
                  cases hother
                  rfl
    · simp [hdata, hindex]
  · simp [hdata]

theorem find?_label (h : t.find? label = some stream) : stream.label = label := by
  simpa using List.find?_some h

theorem find?_bind (h : t.bind registry label data index length = .ok (stream, t')) :
    t'.find? label = some stream := by
  rcases bind_eq_ok.mp h with ⟨_, _, _, hnew, preparator, _, hstream, rfl⟩
  unfold find? at hnew ⊢
  rw [List.find?_append, hnew, hstream]
  simp

/-!
# Positions and labels
-/

/-- The identities of the streams are their positions, and no two have one label. -/
structure Coherent (t : Streams) : Prop where
  ids : t.bound.map BoundStream.id = (List.range t.bound.length).map StreamId.mk
  labels : (t.bound.map BoundStream.label).Nodup

theorem isSome_find? (t : Streams) (label : String) :
    (t.find? label).isSome = true ↔ ∃ stream ∈ t.bound, stream.label = label := by
  unfold find?
  rw [List.find?_isSome]
  simp only [beq_iff_eq]

theorem label_of_bind (h : t.bind registry label data index length = .ok (stream, t')) :
    stream.label = label :=
  find?_label (find?_bind h)

namespace Coherent

theorem empty : Coherent {} where
  ids := rfl
  labels := List.nodup_nil

theorem bind (h : t.Coherent)
    (hbind : t.bind registry label data index length = .ok (stream, t')) : t'.Coherent := by
  rcases bind_eq_ok.mp hbind with ⟨-, -, -, hnew, preparator, -, rfl, rfl⟩
  constructor
  · show (t.bound ++ [_]).map BoundStream.id =
      (List.range (t.bound ++ [_]).length).map StreamId.mk
    rw [List.map_append, h.ids, List.length_append, List.length_singleton, List.range_succ,
      List.map_append]
    rfl
  · show ((t.bound ++ [_]).map BoundStream.label).Nodup
    rw [List.map_append, List.nodup_append]
    refine ⟨h.labels, List.nodup_singleton _, ?_⟩
    intro taken htaken last hlast hsame
    rcases List.mem_map.mp htaken with ⟨other, hother, rfl⟩
    have hlabel : other.label = label := hsame.trans (List.mem_singleton.mp hlast)
    have hfound := (isSome_find? t label).mpr ⟨other, hother, hlabel⟩
    rw [hnew] at hfound
    cases hfound

theorem get?_eq_some (h : t.Coherent) {id : StreamId} :
    t.get? id = some stream ↔ stream ∈ t.bound ∧ stream.id = id := by
  have hid : ∀ position, t.bound[position]? = some stream → stream.id = ⟨position⟩ := by
    intro position hposition
    have hat := congrArg (fun ids => ids[position]?) h.ids
    simp only [List.getElem?_map, hposition, Option.map_some] at hat
    rcases Option.map_eq_some_iff.mp hat.symm with ⟨number, hnumber, hsame⟩
    rcases List.getElem?_eq_some_iff.mp hnumber with ⟨_, rfl⟩
    rw [← hsame, List.getElem_range]
  unfold get?
  constructor
  · intro hat
    exact ⟨List.mem_of_getElem? hat, hid id.index hat⟩
  · rintro ⟨hmem, rfl⟩
    rcases List.getElem?_of_mem hmem with ⟨position, hposition⟩
    rw [hid position hposition]
    exact hposition

theorem find_eq_ok (h : t.Coherent) :
    t.find label = .ok stream ↔ stream ∈ t.bound ∧ stream.label = label := by
  have hfind : t.find label = .ok stream ↔ t.find? label = some stream := by
    unfold find
    cases t.find? label with
    | none => simp
    | some found => simp
  rw [hfind]
  constructor
  · intro hfound
    exact ⟨List.mem_of_find?_eq_some hfound, find?_label hfound⟩
  · rintro ⟨hmem, hlabel⟩
    cases hfound : t.find? label with
    | none =>
        have hsome := (isSome_find? t label).mpr ⟨stream, hmem, hlabel⟩
        rw [hfound] at hsome
        cases hsome
    | some other =>
        have hother : other.label = stream.label := (find?_label hfound).trans hlabel.symm
        rw [List.inj_on_of_nodup_map h.labels (List.mem_of_find?_eq_some hfound) hmem hother]

end Coherent

theorem find_eq_error {fault : StructureFault} :
    t.find label = .error fault ↔
      (¬ ∃ stream ∈ t.bound, stream.label = label) ∧ fault = .noStream label := by
  rw [← isSome_find?]
  unfold find
  cases t.find? label with
  | none => simp [eq_comm]
  | some found => simp

end Streams

namespace Context

variable {c next : Context} {commands : List Command} {command : Command}
variable {outcome : Except Refusal Reply}

/-!
# Registration
-/

def registered? (model : Model) : Command → Option StreamPreparator
  | .addStreamPreparator p => (p.canonical model).toOption
  | _ => none

def lastRegistered (model : Model) (commands : List Command) (key : StreamKey) :
    Option StreamPreparator :=
  ((commands.filterMap (registered? model)).filter fun p => p.key == key).getLast?

theorem lastRegistered_concat (model : Model) (commands : List Command) (command : Command)
    (key : StreamKey) :
    lastRegistered model (commands ++ [command]) key =
      match registered? model command with
      | none => lastRegistered model commands key
      | some p => if p.key = key then some p else lastRegistered model commands key := by
  unfold lastRegistered
  rw [List.filterMap_append]
  cases hp : registered? model command with
  | none =>
      simp [hp]
  | some p =>
      have hlast : [command].filterMap (registered? model) = [p] := by simp [hp]
      rw [hlast, getLast?_filter_concat]
      simp only [beq_iff_eq]

theorem preparators_of_step (h : Step c command outcome next) :
    (next.streamPreparators = c.streamPreparators ∧
      ∀ p, command = .addStreamPreparator p → ∃ cause, outcome = .error cause) ∨
    ∃ p p', command = .addStreamPreparator p ∧ p.canonical c.model = .ok p' ∧
      next.streamPreparators = c.streamPreparators.register p' := by
  cases h with
  | refused =>
      exact Or.inl ⟨rfl, fun _ _ => ⟨_, rfl⟩⟩
  | @answered command reply hcommand =>
      refine Or.inl ⟨rfl, ?_⟩
      intro p hp
      subst hp
      cases hcommand
  | @placed command node hleaf =>
      refine Or.inl ⟨by simp [push], ?_⟩
      intro p hp
      subst hp
      cases hleaf
  | @streamAccessed command label part stream hcommand _ =>
      refine Or.inl ⟨by simp [access], ?_⟩
      intro p hp
      subst hp
      cases hcommand
  | streamPrepared hcanonical =>
      exact Or.inr ⟨_, _, rfl, hcanonical, rfl⟩
  | _ =>
      refine Or.inl ⟨by simp [push, access], ?_⟩
      intro p hp
      cases hp

theorem registered?_of_refused {before : List Command}
    (h : ∀ p, command = .addStreamPreparator p →
      ∃ cause, ((c.run before).perform command).1 = .error cause) :
    registered? c.model command = none := by
  unfold registered?
  split
  · rename_i p
    rcases h p rfl with ⟨cause, hcause⟩
    cases hcanonical : p.canonical c.model with
    | error _ =>
        rfl
    | ok p' =>
        rw [← run_model c before] at hcanonical
        simp [perform, addStreamPreparator, hcanonical, bind, Except.bind, commitDone, pure,
          Except.pure] at hcause
  · rfl

theorem get?_run (hstart : c.streamPreparators = .empty) (commands : List Command)
    (key : StreamKey) :
    (c.run commands).streamPreparators.get? key = lastRegistered c.model commands key := by
  induction commands using List.reverseRecOn with
  | nil =>
      rw [run_nil, hstart]
      rfl
  | append_singleton before command ih =>
      rw [lastRegistered_concat, ← ih]
      rcases preparators_of_step (step_last c before command) with
        ⟨hsame, hrefused⟩ | ⟨p, p', rfl, hcanonical, hnext⟩
      · -- Only the model refuses a preparator, and no command changes the model.
        rw [hsame, registered?_of_refused hrefused]
      · rw [run_model] at hcanonical
        rw [hnext, StreamRegistry.register, OrderedMap.get?_insert, registered?, hcanonical]
        rfl

/-!
# Binding
-/

theorem streams_of_step (h : Step c command outcome next) :
    next.streams = c.streams ∨
      ∃ label data index length stream, command = .bindStream label data index length ∧
        outcome = .ok (.stream stream.id) ∧
        c.streams.bind c.streamPreparators label data index length =
          .ok (stream, next.streams) := by
  cases h with
  | streamBound hbind =>
      exact Or.inr ⟨_, _, _, _, _, rfl, rfl, by simpa [access] using hbind⟩
  | _ =>
      exact Or.inl (by simp [push, access])

def BindsStream (c : Context) (commands : List Command) (stream : BoundStream) : Prop :=
  ∃ before,
    c.Accepted commands before
      (.bindStream stream.label stream.data stream.index stream.length) (.stream stream.id) ∧
    lastRegistered c.model before (StreamKey.ofNames stream.data.name stream.index.name) =
      some stream.preparator

theorem bindsStream_of_mem (hpreparators : c.streamPreparators = .empty)
    (hstreams : c.streams.bound = []) {stream : BoundStream}
    (h : stream ∈ (c.run commands).streams.bound) : c.BindsStream commands stream := by
  have hbound := exists_accepted
    (P := fun next => stream ∈ next.streams.bound)
    (R := fun before command reply =>
      command = .bindStream stream.label stream.data stream.index stream.length ∧
        reply = .stream stream.id ∧
        (c.run before).streamPreparators.get?
          (StreamKey.ofNames stream.data.name stream.index.name) = some stream.preparator)
    ?_ ?_ h
  · rcases hbound with ⟨before, _, _, haccepted, rfl, rfl, hget⟩
    rw [get?_run hpreparators] at hget
    exact ⟨before, haccepted, hget⟩
  · intro before command outcome hstep hnext
    rcases streams_of_step hstep with
      hsame | ⟨label, data, index, length, last, hcommand, hreply, hbind⟩
    · rw [hsame] at hnext
      exact Or.inl hnext
    · rcases Streams.bind_eq_ok.mp hbind with
        ⟨_, _, _, _, preparator, hget, hlast, hstreams⟩
      rw [hstreams] at hnext
      rcases List.mem_append.mp hnext with hold | hnew
      · exact Or.inl hold
      · rw [List.mem_singleton.mp hnew, hlast]
        rw [hlast] at hreply
        exact Or.inr ⟨_, hreply, hcommand, rfl, hget⟩
  · rw [hstreams]
    simp

theorem bound_of_accepted {label : String} {data index : Primitive} {length : Nat}
    {reply : Reply} (h : Step c (.bindStream label data index length) (.ok reply) next) :
    ∃ stream, reply = .stream stream.id ∧
      c.streams.bind c.streamPreparators label data index length =
        .ok (stream, next.streams) := by
  cases h with
  | answered hcommand => cases hcommand
  | placed hleaf => cases hleaf
  | streamBound hbind => exact ⟨_, rfl, by simpa [access] using hbind⟩
  | streamAccessed hcommand _ => cases hcommand

/-!
# Streams of a run
-/

theorem run_coherent (h : c.streams.Coherent) (commands : List Command) :
    (c.run commands).streams.Coherent := by
  apply run_invariant (I := fun c => c.streams.Coherent) _ h
  intro c command outcome next hcoherent hstep
  rcases streams_of_step hstep with hsame | ⟨_, _, _, _, _, _, _, hbind⟩
  · rw [hsame]
    exact hcoherent
  · exact hcoherent.bind hbind

theorem bound_of_step (h : Step c command outcome next) {stream : BoundStream}
    (hstream : stream ∈ c.streams.bound) : stream ∈ next.streams.bound := by
  rcases streams_of_step h with hsame | ⟨_, _, _, _, _, _, _, hbind⟩
  · rw [hsame]
    exact hstream
  · rcases Streams.bind_eq_ok.mp hbind with ⟨_, _, _, _, _, _, _, hstreams⟩
    rw [hstreams]
    exact List.mem_append_left _ hstream

theorem bound_of_run {stream : BoundStream} (h : stream ∈ c.streams.bound)
    (commands : List Command) : stream ∈ (c.run commands).streams.bound := by
  apply run_invariant (I := fun c => stream ∈ c.streams.bound) _ h
  intro c command outcome next hstream hstep
  exact bound_of_step hstep hstream

/-- The streams of a run are those that were bound in it. -/
theorem bindsStream_iff_mem (hpreparators : c.streamPreparators = .empty)
    (hstreams : c.streams.bound = []) {stream : BoundStream} :
    c.BindsStream commands stream ↔ stream ∈ (c.run commands).streams.bound := by
  constructor
  · intro hparts
    rcases hparts with ⟨before, haccepted, hregistered⟩
    apply haccepted.lasting (P := fun next => stream ∈ next.streams.bound)
    · intro next hstep
      rcases bound_of_accepted hstep with ⟨bound, hreply, hbind⟩
      rcases Streams.bind_eq_ok.mp hbind with ⟨_, _, _, _, preparator, hget, hbound, hnext⟩
      rw [get?_run hpreparators, hregistered] at hget
      have hsame : stream = bound := by
        rw [hbound] at hreply ⊢
        cases stream
        cases hreply
        cases hget
        rfl
      rw [hnext, hsame]
      exact List.mem_append_right _ (List.mem_singleton_self bound)
    · intro c command outcome next hstream hstep
      exact bound_of_step hstep hstream
  · intro hmem
    exact bindsStream_of_mem hpreparators hstreams hmem

end Context
end Stimulus
