import Mathlib.Data.List.Induction
import Stimulus.Pattern.StreamSession
import Stimulus.Proofs.BoundStreams
import Stimulus.Proofs.SettledCalls

/-!
# Streams of a session

## Histories

What a session holds is told by the calls that it has gone through.  A stream takes the
preparator that was registered last when it was bound, and nothing that is called later
changes it.

## Refusals

A stream is refused for the first condition that fails: those on the registers come first,
then the length, the label and the preparator.
-/

namespace Stimulus

open InPlace

namespace StreamSession

variable {s : StreamSession} {calls : List StreamCall} {call : StreamCall}
variable {label : String} {data index : Primitive} {length : Nat}

/-!
# Steps
-/

inductive Step (s : StreamSession) :
    StreamCall → Except Refusal StreamReply → StreamSession → Prop where
  | registered (p : StreamPreparator) :
      Step s (.register p) (.ok (.registered (s.registry.get? p.key)))
        { s with registry := s.registry.register p }
  | refused {label : String} {data index : Primitive} {length : Nat} {cause : Refusal}
      (h : s.streams.bind s.registry label data index length = .error cause) :
      Step s (.bind label data index length) (.error cause) s
  | bound {label : String} {data index : Primitive} {length : Nat} {stream : BoundStream}
      {streams : Streams}
      (h : s.streams.bind s.registry label data index length = .ok (stream, streams)) :
      Step s (.bind label data index length) (.ok (.bound stream.id)) { s with streams }

theorem perform_bind (s : StreamSession) (label : String) (data index : Primitive)
    (length : Nat) :
    s.perform (.bind label data index length) =
      settle s (fun bound => (.bound bound.1.id, { s with streams := bound.2 }))
        (s.streams.bind s.registry label data index length) := by
  cases h : s.streams.bind s.registry label data index length with
  | error cause => simp only [perform, h, settle]
  | ok bound => simp only [perform, h, settle]

theorem perform_step (s : StreamSession) (call : StreamCall) :
    Step s call (s.perform call).1 (s.perform call).2 := by
  cases call with
  | register p => exact .registered p
  | bind label data index length =>
      rw [perform_bind]
      cases h : s.streams.bind s.registry label data index length with
      | error cause => exact .refused h
      | ok bound => exact .bound h

theorem perform_refused {cause : Refusal} (h : (s.perform call).1 = .error cause) :
    (s.perform call).2 = s := by
  have hstep := s.perform_step call
  rw [h] at hstep
  generalize (s.perform call).2 = next at hstep
  cases hstep with
  | refused _ => rfl

theorem after_concat (calls : List StreamCall) (call : StreamCall) :
    after (calls ++ [call]) = ((after calls).perform call).2 := by
  simp [after, run]

theorem step_last (calls : List StreamCall) (call : StreamCall) :
    Step (after calls) call ((after calls).perform call).1 (after (calls ++ [call])) := by
  rw [after_concat]
  exact (after calls).perform_step call

theorem replies_concat (calls : List StreamCall) (call : StreamCall) :
    replies {} (calls ++ [call]) = replies {} calls ++ [((after calls).perform call).1] := by
  have hfrom : ∀ s : StreamSession,
      s.replies (calls ++ [call]) = s.replies calls ++ [((s.run calls).perform call).1] := by
    induction calls with
    | nil =>
        intro s
        rfl
    | cons first rest ih =>
        intro s
        rw [List.cons_append, replies, ih, replies]
        rfl
  exact hfrom {}

/-!
# Registration
-/

def preparator? : StreamCall → Option StreamPreparator
  | .register p => some p
  | .bind .. => none

def lastRegistered? (calls : List StreamCall) (key : StreamKey) : Option StreamPreparator :=
  ((calls.filterMap preparator?).filter fun p => p.key = key).getLast?

theorem lastRegistered?_register (calls : List StreamCall) (p : StreamPreparator)
    (key : StreamKey) :
    lastRegistered? (calls ++ [.register p]) key =
      if p.key = key then some p else lastRegistered? calls key := by
  have hlast : [StreamCall.register p].filterMap preparator? = [p] := rfl
  rw [lastRegistered?, List.filterMap_append, hlast, getLast?_filter_concat, lastRegistered?]
  simp only [decide_eq_true_eq]

theorem lastRegistered?_bind (calls : List StreamCall) (key : StreamKey) :
    lastRegistered? (calls ++ [.bind label data index length]) key =
      lastRegistered? calls key := by
  have hlast : [StreamCall.bind label data index length].filterMap preparator? = [] := rfl
  rw [lastRegistered?, List.filterMap_append, hlast, List.append_nil, lastRegistered?]

theorem get?_registry (calls : List StreamCall) (key : StreamKey) :
    (after calls).registry.get? key = lastRegistered? calls key := by
  induction calls using List.reverseRecOn with
  | nil =>
      rfl
  | append_singleton calls call ih =>
      have hstep := step_last calls call
      generalize ((after calls).perform call).1 = outcome at hstep
      generalize after (calls ++ [call]) = next at hstep
      cases hstep with
      | registered p =>
          rw [lastRegistered?_register, ← ih]
          exact OrderedMap.get?_insert _ _ _ _
      | refused h => rw [lastRegistered?_bind, ih]
      | bound h => rw [lastRegistered?_bind, ← ih]

def Registers (calls : List StreamCall) (key : StreamKey) : Prop :=
  ∃ p, .register p ∈ calls ∧ p.key = key

theorem lastRegistered?_eq_none (calls : List StreamCall) (key : StreamKey) :
    lastRegistered? calls key = none ↔ ¬ Registers calls key := by
  induction calls using List.reverseRecOn with
  | nil =>
      constructor
      · rintro - ⟨p, hp, -⟩
        exact List.not_mem_nil hp
      · intro
        rfl
  | append_singleton calls call ih =>
      cases call with
      | register p =>
          rw [lastRegistered?_register]
          by_cases hkey : p.key = key
          · rw [if_pos hkey]
            constructor
            · intro h
              cases h
            · intro h
              exact absurd ⟨p, List.mem_append_right _ (List.mem_singleton.mpr rfl), hkey⟩ h
          · rw [if_neg hkey, ih, not_iff_not]
            constructor
            · rintro ⟨other, hother, hsame⟩
              exact ⟨other, List.mem_append_left _ hother, hsame⟩
            · rintro ⟨other, hother, hsame⟩
              rcases List.mem_append.mp hother with hold | hlast
              · exact ⟨other, hold, hsame⟩
              · cases List.mem_singleton.mp hlast
                exact absurd hsame hkey
      | bind label data index length =>
          rw [lastRegistered?_bind, ih, not_iff_not]
          simp [Registers]

theorem registers_iff (calls : List StreamCall) (key : StreamKey) :
    Registers calls key ↔ ∃ p, (after calls).registry.get? key = some p := by
  rw [← not_iff_not, ← lastRegistered?_eq_none, ← get?_registry, ← Option.isSome_iff_exists,
    Option.not_isSome_iff_eq_none]

/-!
# Binding
-/

/-- The stream was bound by one of the calls, with the preparator that was registered last
before it. -/
def Binds (calls : List StreamCall) (stream : BoundStream) : Prop :=
  ∃ before,
    before ++ [.bind stream.label stream.data stream.index stream.length] <+: calls ∧
      ((after before).perform
        (.bind stream.label stream.data stream.index stream.length)).1 =
          .ok (.bound stream.id) ∧
      lastRegistered? before (.ofNames stream.data.name stream.index.name) =
        some stream.preparator

def BindsLabel (calls : List StreamCall) (label : String) : Prop :=
  ∃ before data index length id,
    before ++ [.bind label data index length] <+: calls ∧
      ((after before).perform (.bind label data index length)).1 = .ok (.bound id)

theorem binds_concat (calls : List StreamCall) (call : StreamCall) (stream : BoundStream) :
    Binds (calls ++ [call]) stream ↔
      Binds calls stream ∨
        call = .bind stream.label stream.data stream.index stream.length ∧
          ((after calls).perform call).1 = .ok (.bound stream.id) ∧
          lastRegistered? calls (.ofNames stream.data.name stream.index.name) =
            some stream.preparator := by
  constructor
  · rintro ⟨before, hbefore, hreply, hlast⟩
    rcases List.prefix_concat_iff.mp hbefore with hwhole | hold
    · rcases List.append_singleton_inj.mp hwhole with ⟨rfl, rfl⟩
      exact Or.inr ⟨rfl, hreply, hlast⟩
    · exact Or.inl ⟨before, hold, hreply, hlast⟩
  · rintro (⟨before, hbefore, hreply, hlast⟩ | ⟨rfl, hreply, hlast⟩)
    · exact ⟨before, hbefore.trans (List.prefix_append _ _), hreply, hlast⟩
    · exact ⟨calls, List.prefix_rfl, hreply, hlast⟩

theorem mem_after (calls : List StreamCall) (stream : BoundStream) :
    stream ∈ (after calls).streams.bound ↔ Binds calls stream := by
  induction calls using List.reverseRecOn with
  | nil =>
      constructor
      · intro h
        cases h
      · rintro ⟨before, hbefore, -⟩
        exact absurd (List.prefix_nil.mp hbefore) (by simp)
  | append_singleton calls call ih =>
      rw [binds_concat, ← ih]
      have hstep := step_last calls call
      generalize ((after calls).perform call).1 = outcome at hstep
      generalize after (calls ++ [call]) = next at hstep
      cases hstep with
      | registered p =>
          simp
      | refused h =>
          simp
      | @bound label data index length last streams h =>
          rcases Streams.bind_eq_ok.mp h with ⟨-, -, -, -, preparator, hget, rfl, rfl⟩
          rw [get?_registry] at hget
          rw [List.mem_append, List.mem_singleton]
          refine or_congr_right ?_
          constructor
          · rintro rfl
            exact ⟨rfl, rfl, hget⟩
          · rintro ⟨hcall, hreply, hlast⟩
            cases stream
            cases hcall
            cases hreply
            rw [hget] at hlast
            cases hlast
            rfl

theorem Binds.mono {stream : BoundStream} {later : List StreamCall} (h : Binds calls stream)
    (hlater : calls <+: later) : Binds later stream := by
  rcases h with ⟨before, hbefore, hbound⟩
  exact ⟨before, hbefore.trans hlater, hbound⟩

theorem perform_bind_eq_ok {reply : StreamReply} :
    (s.perform (.bind label data index length)).1 = .ok reply ↔
      ∃ stream streams,
        s.streams.bind s.registry label data index length = .ok (stream, streams) ∧
          reply = .bound stream.id := by
  rw [perform_bind]
  cases s.streams.bind s.registry label data index length with
  | error cause =>
      simp [settle]
  | ok bound =>
      rcases bound with ⟨stream, streams⟩
      simp [eq_comm]

theorem perform_bind_eq_error {cause : Refusal} :
    (s.perform (.bind label data index length)).1 = .error cause ↔
      s.streams.bind s.registry label data index length = .error cause := by
  rw [perform_bind]
  cases s.streams.bind s.registry label data index length with
  | error cause => simp [settle]
  | ok bound => simp

theorem bindsLabel_iff (calls : List StreamCall) (label : String) :
    BindsLabel calls label ↔ ∃ stream ∈ (after calls).streams.bound, stream.label = label := by
  constructor
  · rintro ⟨before, data, index, length, id, hbefore, hreply⟩
    rcases perform_bind_eq_ok.mp hreply with ⟨stream, streams, hbind, -⟩
    have hmem : stream ∈ (after (before ++ [.bind label data index length])).streams.bound := by
      rw [after_concat, perform_bind, hbind]
      rcases Streams.bind_eq_ok.mp hbind with ⟨-, -, -, -, _, -, -, rfl⟩
      exact List.mem_append_right _ (List.mem_singleton.mpr rfl)
    have hbinds := ((mem_after _ stream).mp hmem).mono hbefore
    exact ⟨stream, (mem_after calls stream).mpr hbinds, Streams.label_of_bind hbind⟩
  · rintro ⟨stream, hmem, rfl⟩
    rcases (mem_after calls stream).mp hmem with ⟨before, hbefore, hreply, -⟩
    exact ⟨before, _, _, _, _, hbefore, hreply⟩

/-!
# Refusals
-/

/-- What has to hold for a stream to be bound after the calls. -/
structure Bindable (calls : List StreamCall) (label : String) (data index : Primitive)
    (length : Nat) : Prop where
  dataMode : data.kind = .mode
  indexMode : index.kind = .mode
  positive : 0 < length
  free : ¬ BindsLabel calls label
  registered : Registers calls (.ofNames data.name index.name)

/-- The first of the conditions that fails tells why a stream is refused. -/
inductive FirstFault (calls : List StreamCall) (label : String) (data index : Primitive)
    (length : Nat) : Refusal → Prop where
  | data (h : data.kind ≠ .mode) :
      FirstFault calls label data index length (.argument (.notAMode .streamData data))
  | index (hdata : data.kind = .mode) (h : index.kind ≠ .mode) :
      FirstFault calls label data index length (.argument (.notAMode .streamIndex index))
  | length (hdata : data.kind = .mode) (hindex : index.kind = .mode) (h : length = 0) :
      FirstFault calls label data index length (.argument (.notPositive .streamLength))
  | label (hdata : data.kind = .mode) (hindex : index.kind = .mode) (hlength : 0 < length)
      (h : BindsLabel calls label) :
      FirstFault calls label data index length (.structural (.streamLabelTaken label))
  | preparator (hdata : data.kind = .mode) (hindex : index.kind = .mode) (hlength : 0 < length)
      (hlabel : ¬ BindsLabel calls label)
      (h : ¬ Registers calls (.ofNames data.name index.name)) :
      FirstFault calls label data index length
        (.structural (.noStreamPreparator (.ofNames data.name index.name)))

theorem perform_bind_eq_ok_iff {reply : StreamReply} :
    ((after calls).perform (.bind label data index length)).1 = .ok reply ↔
      Bindable calls label data index length ∧
        reply = .bound ⟨(after calls).streams.bound.length⟩ := by
  have hfree : (after calls).streams.find? label = none ↔ ¬ BindsLabel calls label := by
    rw [bindsLabel_iff, ← Streams.isSome_find?, Option.not_isSome_iff_eq_none]
  rw [perform_bind_eq_ok]
  constructor
  · rintro ⟨stream, streams, hbind, rfl⟩
    rcases Streams.bind_eq_ok.mp hbind with
      ⟨hdata, hindex, hlength, hnew, preparator, hget, rfl, -⟩
    have hregistered : Registers calls (.ofNames data.name index.name) :=
      (registers_iff calls _).mpr ⟨preparator, hget⟩
    exact ⟨⟨hdata, hindex, Nat.pos_of_ne_zero hlength, hfree.mp hnew, hregistered⟩, rfl⟩
  · rintro ⟨h, rfl⟩
    rcases (registers_iff calls _).mp h.registered with ⟨preparator, hget⟩
    exact ⟨_, _, Streams.bind_eq_ok.mpr ⟨h.dataMode, h.indexMode, Nat.ne_of_gt h.positive,
      hfree.mpr h.free, preparator, hget, rfl, rfl⟩, rfl⟩

theorem perform_bind_eq_error_iff {cause : Refusal} :
    ((after calls).perform (.bind label data index length)).1 = .error cause ↔
      FirstFault calls label data index length cause := by
  have htaken : ((after calls).streams.find? label).isSome = true ↔ BindsLabel calls label := by
    rw [Streams.isSome_find?, bindsLabel_iff]
  rw [perform_bind_eq_error, Streams.bind, StreamRegistry.find]
  constructor
  · intro h
    split_ifs at h with hdata hindex hlength hlabel
    · cases h
      exact .data hdata
    · cases h
      exact .index (not_not.mp hdata) hindex
    · cases h
      exact .length (not_not.mp hdata) (not_not.mp hindex) hlength
    · cases h
      exact .label (not_not.mp hdata) (not_not.mp hindex) (Nat.pos_of_ne_zero hlength)
        (htaken.mp hlabel)
    · cases hget : (after calls).registry.get? (.ofNames data.name index.name) with
      | some preparator =>
          rw [hget] at h
          cases h
      | none =>
          rw [hget] at h
          cases h
          have hnone : ¬ Registers calls (.ofNames data.name index.name) := by
            rw [registers_iff, hget]
            rintro ⟨p, hp⟩
            cases hp
          exact .preparator (not_not.mp hdata) (not_not.mp hindex)
            (Nat.pos_of_ne_zero hlength) (mt htaken.mpr hlabel) hnone
  · intro h
    cases h with
    | data h =>
        rw [if_pos h]
    | index hdata h =>
        rw [if_neg (not_not_intro hdata), if_pos h]
    | length hdata hindex h =>
        rw [if_neg (not_not_intro hdata), if_neg (not_not_intro hindex), if_pos h]
    | label hdata hindex hlength h =>
        rw [if_neg (not_not_intro hdata), if_neg (not_not_intro hindex), if_neg (Nat.ne_of_gt hlength),
          if_pos (htaken.mpr h)]
    | preparator hdata hindex hlength hlabel h =>
        have hnone : (after calls).registry.get? (.ofNames data.name index.name) = none := by
          rw [get?_registry, lastRegistered?_eq_none]
          exact h
        rw [if_neg (not_not_intro hdata), if_neg (not_not_intro hindex), if_neg (Nat.ne_of_gt hlength),
          if_neg (mt htaken.mp hlabel), hnone]

/-!
# Coherence
-/

theorem coherent_streams (calls : List StreamCall) : (after calls).streams.Coherent := by
  induction calls using List.reverseRecOn with
  | nil =>
      exact .empty
  | append_singleton calls call ih =>
      have hstep := step_last calls call
      generalize ((after calls).perform call).1 = outcome at hstep
      generalize after (calls ++ [call]) = next at hstep
      cases hstep with
      | registered p => exact ih
      | refused h => exact ih
      | bound h => exact ih.bind h

def boundId? : Except Refusal StreamReply → Option StreamId
  | .ok (.bound id) => some id
  | _ => none

theorem boundIds_replies (calls : List StreamCall) :
    (replies {} calls).filterMap boundId? = (after calls).streams.bound.map BoundStream.id := by
  induction calls using List.reverseRecOn with
  | nil =>
      rfl
  | append_singleton calls call ih =>
      rw [replies_concat, List.filterMap_append, ih]
      have hstep := step_last calls call
      generalize ((after calls).perform call).1 = outcome at hstep
      generalize after (calls ++ [call]) = next at hstep
      cases hstep with
      | registered p =>
          exact List.append_nil _
      | refused h =>
          exact List.append_nil _
      | bound h =>
          rcases Streams.bind_eq_ok.mp h with ⟨-, -, -, -, _, -, -, rfl⟩
          show _ = List.map BoundStream.id (_ ++ [_])
          rw [List.map_append]
          rfl

theorem get?_eq_some_iff {id : StreamId} {stream : BoundStream} :
    (after calls).streams.get? id = some stream ↔ Binds calls stream ∧ stream.id = id := by
  rw [(coherent_streams calls).get?_eq_some, mem_after]

theorem find_eq_ok_iff {stream : BoundStream} :
    (after calls).streams.find label = .ok stream ↔
      Binds calls stream ∧ stream.label = label := by
  rw [(coherent_streams calls).find_eq_ok, mem_after]

theorem find_eq_error_iff {fault : StructureFault} :
    (after calls).streams.find label = .error fault ↔
      ¬ BindsLabel calls label ∧ fault = .noStream label := by
  rw [Streams.find_eq_error, ← bindsLabel_iff]

end StreamSession
end Stimulus
