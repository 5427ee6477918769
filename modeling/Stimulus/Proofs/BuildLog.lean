import Stimulus.Proofs.Marks
import Stimulus.Proofs.OpenScopes

/-!
# The log of a build

## Logged commands

The log of a build lists the marks that its accepted commands cause, in the order
of the commands, each with the phase in force.  It is read off the commands and
their answers; all that it remembers are the identities of the blocks that are open.

## Phases

A build moves forward through the phases, so that its log is the log of the first
phase, followed by that of the second and of the third.
-/

namespace Stimulus

theorem Model.resolve_eq_ok {m : Model} {kind : PrimitiveKind} {name : String} {count : Nat}
    {entry : ModelEntry} :
    m.resolve kind name count = .ok entry ↔
      m.find? kind name = some entry ∧ entry.arity = count := by
  unfold resolve
  cases hfind : m.find? kind name with
  | none =>
      simp
  | some found =>
      by_cases harity : found.arity = count
      · simp only [harity]
        constructor
        · intro h
          cases h
          exact ⟨rfl, harity⟩
        · intro h
          cases h.left
          rfl
      · simp only [harity]
        constructor
        · intro h
          cases h
        · intro h
          cases h.left
          exact absurd h.right harity

/-!
# Marks of one command
-/

def Command.openAfter (opened : List BlockId) : Command → Except Refusal Reply → List BlockId
  | .openBlock _ _, .ok (.block id) => id :: opened
  | .closeBlock, .ok _ => opened.tail
  | _, _ => opened

namespace Context

def accessMarks? (start : String → UInt64) (c : Context) (streams : Streams) (label : String)
    (part : StreamPart) : Option (List Mark) :=
  (streams.find? label).map fun stream =>
    Mark.expansion c.top.nextId (stream.calls start part)

/-- The marks that a command causes when it is performed in `c` and leads to `next`;
`opened` are the blocks that are open before it, the innermost first.  There are none
to name if an accepted command refers to something that does not exist. -/
def caused? (start : String → UInt64) (opened : List BlockId) (c next : Context) :
    Command → Except Refusal Reply → Option (List Mark)
  | .openBlock kind _, .ok (.block id) => some [.blockStart id (.user kind)]
  | .openBlock _ _, .ok _ => none
  | .closeBlock, .ok _ => opened.head?.map fun id => [.blockStop id]
  | .instruction name args, .ok _ =>
      (c.model.find? .instruction name).map fun entry => [.call ⟨.instruction, entry.name, args⟩]
  | .label name, .ok _ =>
      some [.label name (opened.head?.getD (BlockId.root.child c.phase.index))]
  | .output kind format args, .ok _ => some [.output ⟨kind, format, args⟩]
  | .newline, .ok _ => some [.output (.text "")]
  | .comment text, .ok _ => some [.output (.text (c.comments.line ++ text))]
  | .openComment, .ok _ => some [.output (.text c.comments.blockStart)]
  | .closeComment, .ok _ => some [.output (.text c.comments.blockStop)]
  | .origin address relative, .ok _ => some [.directive (.origin address relative)]
  | .align alignment, .ok _ => some [.directive (.align alignment)]
  | .bindStream label _ _ _, .ok _ => accessMarks? start c next.streams label .init
  | .readStream label, .ok _ => accessMarks? start c next.streams label .read
  | .writeStream label, .ok _ => accessMarks? start c next.streams label .write
  | _, _ => some []

theorem caused?_error {start : String → UInt64} {opened : List BlockId} {c next : Context}
    (command : Command) (cause : Refusal) :
    caused? start opened c next command (.error cause) = some [] := by
  cases command <;> rfl

theorem caused?_answered {start : String → UInt64} {opened : List BlockId} {c next : Context}
    {command : Command} (h : command.mayOnlyAnswer = true) (reply : Reply) :
    caused? start opened c next command (.ok reply) = some [] := by
  cases command with
  | advanceTo phase => rfl
  | value kind name args => rfl
  | random min max => rfl
  | attach situation => rfl
  | _ => cases h

/-!
# The log
-/

/-- The log of `commands`, issued one after the other from `c`. -/
def log (start : String → UInt64) (opened : List BlockId) (c : Context) :
    List Command → Option (List (Phase × Mark))
  | [] => some []
  | command :: rest => do
      let (outcome, next) := c.perform command
      let marks ← caused? start opened c next command outcome
      let later ← next.log start (command.openAfter opened outcome) rest
      return marks.map (fun m => (c.phase, m)) ++ later

theorem log_cons {start : String → UInt64} {opened : List BlockId} {c : Context}
    {command : Command} {rest : List Command} {entries : List (Phase × Mark)} :
    c.log start opened (command :: rest) = some entries ↔
      ∃ marks later,
        caused? start opened c (c.perform command).2 command (c.perform command).1 =
          some marks ∧
        (c.perform command).2.log start (command.openAfter opened (c.perform command).1) rest =
          some later ∧
        entries = marks.map (fun m => (c.phase, m)) ++ later := by
  have hunfold : c.log start opened (command :: rest) =
      (caused? start opened c (c.perform command).2 command (c.perform command).1).bind
        fun marks =>
          ((c.perform command).2.log start
            (command.openAfter opened (c.perform command).1) rest).bind
            fun later => some (marks.map (fun m => (c.phase, m)) ++ later) := rfl
  rw [hunfold, Option.bind_eq_some_iff]
  constructor
  · intro hparts
    rcases hparts with ⟨marks, hmarks, hrest⟩
    rcases Option.bind_eq_some_iff.mp hrest with ⟨later, hlater, hentries⟩
    cases hentries
    exact ⟨marks, later, hmarks, hlater, rfl⟩
  · intro hparts
    rcases hparts with ⟨marks, later, hmarks, hlater, rfl⟩
    exact ⟨marks, hmarks, Option.bind_eq_some_iff.mpr ⟨later, hlater, rfl⟩⟩

end Context

def Phase.marksOf (p : Phase) (log : List (Phase × Mark)) : List Mark :=
  log.filterMap fun entry => if entry.1 = p then some entry.2 else none

namespace Phase

variable {p q : Phase} {log : List (Phase × Mark)}

theorem marksOf_append (front back : List (Phase × Mark)) :
    p.marksOf (front ++ back) = p.marksOf front ++ p.marksOf back :=
  List.filterMap_append

theorem marksOf_same (marks : List Mark) : p.marksOf (marks.map fun m => (p, m)) = marks := by
  have hsame : ((fun entry : Phase × Mark => if entry.1 = p then some entry.2 else none) ∘
      fun m => (p, m)) = some := by
    funext m
    simp
  rw [marksOf, List.filterMap_map, hsame, List.filterMap_some]

theorem marksOf_other (h : q ≠ p) (marks : List Mark) :
    p.marksOf (marks.map fun m => (q, m)) = [] := by
  simp [marksOf, List.filterMap_map, h]

theorem marksOf_later (h : ∀ entry ∈ log, p.index < entry.1.index) : p.marksOf log = [] := by
  apply List.filterMap_eq_nil_iff.mpr
  intro entry hentry
  have hne : entry.1 ≠ p := by
    intro hsame
    have hlt := h entry hentry
    rw [hsame] at hlt
    exact absurd hlt (Nat.lt_irrefl _)
  rw [if_neg hne]

theorem flatMap_marksOf (h : log.Pairwise fun a b => a.1.index ≤ b.1.index) :
    (all.flatMap fun p => p.marksOf log) = log.map Prod.snd := by
  induction log with
  | nil =>
      rfl
  | cons entry rest ih =>
      rcases entry with ⟨q, m⟩
      rcases List.pairwise_cons.mp h with ⟨hfirst, hrest⟩
      have hcons : ∀ p : Phase, p.marksOf ((q, m) :: rest) =
          (if q = p then [m] else []) ++ p.marksOf rest := by
        intro p
        by_cases hp : q = p
        · simp [marksOf, hp]
        · simp [marksOf, hp]
      have hearlier : ∀ p : Phase, p.index < q.index → p.marksOf rest = [] := by
        intro p hp
        apply marksOf_later
        intro entry hentry
        exact Nat.lt_of_lt_of_le hp (hfirst entry hentry)
      have ih := ih hrest
      simp only [all, List.flatMap_cons, List.flatMap_nil, List.append_nil] at ih ⊢
      rw [hcons, hcons, hcons, List.map_cons, ← ih]
      cases q with
      | pre =>
          simp
      | run =>
          simp [hearlier .pre (by decide)]
      | post =>
          simp [hearlier .pre (by decide), hearlier .run (by decide)]

end Phase

/-!
# Phases of the log
-/

namespace Context

theorem phase_of_step {c next : Context} {command : Command} {outcome : Except Refusal Reply}
    (h : Step c command outcome next) : c.phase.index ≤ next.phase.index := by
  cases h with
  | advanced horder _ _ => exact Nat.le_of_lt horder
  | _ => simp [push, access]

theorem log_from {start : String → UInt64} {opened : List BlockId} {c : Context}
    {commands : List Command} {entries : List (Phase × Mark)}
    (h : c.log start opened commands = some entries) :
    ∀ entry ∈ entries, c.phase.index ≤ entry.1.index := by
  induction commands generalizing c opened entries with
  | nil =>
      cases h
      intro entry hentry
      cases hentry
  | cons command rest ih =>
      rcases log_cons.mp h with ⟨marks, later, _, hlater, rfl⟩
      intro entry hentry
      rcases List.mem_append.mp hentry with hnow | hafter
      · rcases List.mem_map.mp hnow with ⟨m, _, rfl⟩
        exact Nat.le_refl _
      · exact Nat.le_trans (phase_of_step (c.perform_step command)) (ih hlater entry hafter)

theorem log_ordered {start : String → UInt64} {opened : List BlockId} {c : Context}
    {commands : List Command} {entries : List (Phase × Mark)}
    (h : c.log start opened commands = some entries) :
    entries.Pairwise fun a b => a.1.index ≤ b.1.index := by
  induction commands generalizing c opened entries with
  | nil =>
      cases h
      exact List.Pairwise.nil
  | cons command rest ih =>
      rcases log_cons.mp h with ⟨marks, later, _, hlater, rfl⟩
      apply List.pairwise_append.mpr
      refine ⟨?_, ih hlater, ?_⟩
      · apply List.pairwise_map.mpr
        exact List.pairwise_of_forall fun _ _ => Nat.le_refl _
      · intro a ha b hb
        rcases List.mem_map.mp ha with ⟨m, _, rfl⟩
        exact Nat.le_trans (phase_of_step (c.perform_step command)) (log_from hlater b hb)

end Context
end Stimulus
