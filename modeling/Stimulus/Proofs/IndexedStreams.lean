import Stimulus.Proofs.IndexedTables
import Stimulus.Proofs.StreamSessions

/-!
# Streams with an index

## Binding in place

Where the streams stand in a row with an index of their labels, the checks come before the
changes, so that a call is settled.  Every call then keeps the row and the index in step
with the streams.

## Coherence

Hence all that is known of the streams of a session is known of the row, whatever was
registered and bound, and whatever was refused.
-/

namespace Stimulus

open InPlace

namespace Streams

def labelled (t : Streams) : List (String × BoundStream) :=
  t.bound.map fun stream => (stream.label, stream)

theorem labels_labelled (t : Streams) :
    t.labelled.map Prod.fst = t.bound.map BoundStream.label := by
  rw [labelled, List.map_map]
  rfl

theorem lookup_labelled (t : Streams) (label : String) :
    OrderedMap.lookup label t.labelled = t.find? label := by
  rcases t with ⟨bound⟩
  unfold labelled find?
  dsimp only
  induction bound with
  | nil =>
      rfl
  | cons stream rest ih =>
      rw [List.map_cons, OrderedMap.lookup, List.find?_cons, ih]
      by_cases hlabel : stream.label = label
      · rw [if_pos hlabel, beq_iff_eq.mpr hlabel]
      · rw [if_neg hlabel, beq_eq_false_iff_ne.mpr hlabel]

end Streams

/-!
# Binding in place
-/

namespace IndexedStreams

variable {r : IndexedStreams} {t : Streams}

theorem row_eq (h : r.Holds t.labelled) : r.row = t.bound := by
  rw [h.row, Streams.labelled, List.map_map]
  exact List.map_id _

theorem contains_iff (h : r.Holds t.labelled) (label : String) :
    r.index.contains label = true ↔ (t.find? label).isSome = true := by
  rw [h.contains, t.labels_labelled, List.mem_map, Streams.isSome_find?]

theorem find_eq (h : r.Holds t.labelled) (label : String) : r.find label = t.find label := by
  have hget : r.get? label = t.find? label := (h.get? label).trans (t.lookup_labelled label)
  cases hfound : t.find? label with
  | none => simp only [find, Streams.find, hget, hfound]
  | some stream => simp only [find, Streams.find, hget, hfound]

theorem call_bind (h : r.Holds t.labelled) (registry : StreamRegistry) (label : String)
    (data index : Primitive) (length : Nat) :
    (bind registry label data index length).call r =
      settle r (fun bound => (bound.1.id, r.append label bound.1))
        (t.bind registry label data index length) := by
  unfold bind Streams.bind
  refine settle_refuseIf fun _ => ?_
  refine settle_refuseIf fun _ => ?_
  refine settle_refuseIf fun _ => ?_
  rw [call_get_bind]
  refine Eq.trans (settle_refuseIf fun _ => ?_)
    (congrArg (settle r _) (if_congr (contains_iff h label) rfl rfl))
  rw [← row_eq h]
  cases registry.find (.ofNames data.name index.name) with
  | error cause => rfl
  | ok preparator => rfl

theorem holds_bind (h : r.Holds t.labelled) {t' : Streams} {registry : StreamRegistry}
    {label : String} {data index : Primitive} {length : Nat} {stream : BoundStream}
    (hbind : t.bind registry label data index length = .ok (stream, t')) :
    (r.append label stream).Holds t'.labelled := by
  rcases Streams.bind_eq_ok.mp hbind with ⟨-, -, -, hfree, preparator, -, rfl, rfl⟩
  have hnew : label ∉ t.labelled.map Prod.fst := by
    rw [← h.contains, contains_iff h, hfree]
    exact Bool.false_ne_true
  rw [Streams.labelled, List.map_append]
  exact h.append hnew _

end IndexedStreams

/-!
# Sessions in place
-/

namespace IndexedSession

variable {d : IndexedSession} {s : StreamSession}

structure Agrees (d : IndexedSession) (s : StreamSession) : Prop where
  registry : d.registry = s.registry
  streams : d.streams.Holds s.streams.labelled

theorem perform_bind (h : d.Agrees s) (label : String) (data index : Primitive)
    (length : Nat) :
    d.perform (.bind label data index length) =
      settle d
        (fun bound => (.bound bound.1.id, { d with streams := d.streams.append label bound.1 }))
        (s.streams.bind s.registry label data index length) := by
  have hpart : ∀ m : InPlace IndexedStreams StreamId,
      (onPart (fun d : IndexedSession => d.streams) (fun streams d => { d with streams }) m).call
        d = ((m.call d.streams).1, { d with streams := (m.call d.streams).2 }) := by
    intro m
    rfl
  rw [← h.registry, perform, command, call_get_bind, call_bind, hpart,
    IndexedStreams.call_bind h.streams]
  cases s.streams.bind d.registry label data index length with
  | error cause => rfl
  | ok bound => rfl

theorem perform_agrees (h : d.Agrees s) (call : StreamCall) :
    (d.perform call).1 = (s.perform call).1 ∧ (d.perform call).2.Agrees (s.perform call).2 := by
  cases call with
  | register p =>
      have hregistry : d.registry.register p = s.registry.register p :=
        congrArg (fun registry => StreamRegistry.register registry p) h.registry
      constructor
      · show Except.ok (StreamReply.registered (d.registry.get? p.key)) =
          .ok (.registered (s.registry.get? p.key))
        rw [h.registry]
      · exact ⟨hregistry, h.streams⟩
  | bind label data index length =>
      rw [perform_bind h, StreamSession.perform_bind]
      cases hbind : s.streams.bind s.registry label data index length with
      | error cause =>
          exact ⟨rfl, h⟩
      | ok bound =>
          exact ⟨rfl, h.registry, IndexedStreams.holds_bind h.streams hbind⟩

theorem run_agrees (h : d.Agrees s) (calls : List StreamCall) :
    d.replies calls = s.replies calls ∧ (d.run calls).Agrees (s.run calls) := by
  induction calls generalizing d s with
  | nil =>
      exact ⟨rfl, h⟩
  | cons call rest ih =>
      rcases perform_agrees h call with ⟨hreply, hnext⟩
      rcases ih hnext with ⟨hreplies, hrun⟩
      constructor
      · rw [replies, StreamSession.replies, hreply, hreplies]
      · exact hrun

theorem perform_refused (h : d.Agrees s) {call : StreamCall} {cause : Refusal}
    (hcause : (d.perform call).1 = .error cause) : (d.perform call).2 = d := by
  cases call with
  | register p =>
      cases hcause
  | bind label data index length =>
      rw [perform_bind h] at hcause ⊢
      cases hbind : s.streams.bind s.registry label data index length with
      | error other =>
          rfl
      | ok bound =>
          rw [hbind] at hcause
          cases hcause

theorem after_agrees (calls : List StreamCall) :
    (after calls).Agrees (.after calls) :=
  (run_agrees ⟨rfl, .empty⟩ calls).2

end IndexedSession

namespace StreamSession

/-!
# Coherence
-/

/-- The streams of a session are told by its calls. -/
structure Coheres (calls : List StreamCall) (s : StreamSession) : Prop where
  answers : (replies {} calls).filterMap boundId? = s.streams.bound.map BoundStream.id
  dense : s.streams.bound.map BoundStream.id =
    (List.range s.streams.bound.length).map StreamId.mk
  labels : (s.streams.bound.map BoundStream.label).Nodup
  gets : ∀ id stream, s.streams.get? id = some stream ↔ Binds calls stream ∧ stream.id = id
  finds : ∀ label stream,
    s.streams.find label = .ok stream ↔ Binds calls stream ∧ stream.label = label
  misses : ∀ label fault, s.streams.find label = .error fault ↔
    ¬ BindsLabel calls label ∧ fault = .noStream label
  lasts : ∀ later label stream, s.streams.find label = .ok stream →
    (after (calls ++ later)).streams.find label = .ok stream ∧
      (after (calls ++ later)).streams.get? stream.id = some stream
  registers : ∀ p, (s.perform (.register p)).1 = .ok (.registered (lastRegistered? calls p.key))
  binds : ∀ label data index length reply,
    (s.perform (.bind label data index length)).1 = .ok reply ↔
      Bindable calls label data index length ∧ reply = .bound ⟨s.streams.bound.length⟩
  refuses : ∀ label data index length cause,
    (s.perform (.bind label data index length)).1 = .error cause ↔
      FirstFault calls label data index length cause
  keeps : ∀ call cause, (s.perform call).1 = .error cause → (s.perform call).2 = s

/-- A session in place replies alike, and its row and its index stay in step. -/
structure Mirrors (calls : List StreamCall) (s : StreamSession) (d : IndexedSession) :
    Prop where
  replies : IndexedSession.replies {} calls = StreamSession.replies {} calls
  registry : d.registry = s.registry
  row : d.streams.row = s.streams.bound
  index : ∀ label, d.streams.index.get? label =
    (s.streams.bound.map BoundStream.label).idxOf? label
  at? : ∀ id, d.streams.at? id = s.streams.get? id
  finds : ∀ label, d.streams.find label = s.streams.find label
  keeps : ∀ call cause, (d.perform call).1 = .error cause → (d.perform call).2 = d

/-- Whatever is registered and bound, and whatever is refused, the streams stay coherent, and
binding them in place through an index of their labels comes to the same. -/
theorem coheres_after (calls : List StreamCall) :
    Coheres calls (after calls) ∧ Mirrors calls (after calls) (.after calls) := by
  have hcoherent := coherent_streams calls
  have hagrees := IndexedSession.after_agrees calls
  constructor
  · exact {
      answers := boundIds_replies calls
      dense := hcoherent.ids
      labels := hcoherent.labels
      gets := fun id stream => get?_eq_some_iff
      finds := fun label stream => find_eq_ok_iff
      misses := fun label fault => find_eq_error_iff
      lasts := by
        intro later label stream hfound
        rcases find_eq_ok_iff.mp hfound with ⟨hbinds, hlabel⟩
        have hlater := hbinds.mono (List.prefix_append calls later)
        exact ⟨find_eq_ok_iff.mpr ⟨hlater, hlabel⟩, get?_eq_some_iff.mpr ⟨hlater, rfl⟩⟩
      registers := by
        intro p
        rw [← get?_registry]
        rfl
      binds := fun label data index length reply => perform_bind_eq_ok_iff
      refuses := fun label data index length cause => perform_bind_eq_error_iff
      keeps := fun call cause => perform_refused }
  · exact {
      replies := (IndexedSession.run_agrees ⟨rfl, .empty⟩ calls).1
      registry := hagrees.registry
      row := IndexedStreams.row_eq hagrees.streams
      index := by
        intro label
        rw [hagrees.streams.index, Streams.labels_labelled]
      at? := by
        intro id
        rw [IndexedStreams.at?, IndexedStreams.row_eq hagrees.streams]
        rfl
      finds := IndexedStreams.find_eq hagrees.streams
      keeps := fun call cause => IndexedSession.perform_refused hagrees }

end StreamSession
end Stimulus
