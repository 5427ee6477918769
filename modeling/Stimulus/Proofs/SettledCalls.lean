import Stimulus.Data.WriterCall
import Stimulus.Proofs.Checked

/-!
# Settled calls

## Checks before changes

A call in place is settled if it changes the state as a function tells, or is refused
and leaves the state as it is.  Checks that come first keep a call settled.  A check
that comes after a change does so only if it cannot fail.

## Data

All operations on a writer are settled, also those that look up the open section
again after the cursor has been moved.
-/

namespace Stimulus

namespace InPlace

variable {σ τ υ α β : Type}

/-- What a call comes to that changes the state at once, or not at all. -/
def settle (s : σ) (change : τ → α × σ) : Except Refusal τ → Except Refusal α × σ
  | .ok t => (.ok (change t).1, (change t).2)
  | .error cause => (.error cause, s)

variable {s : σ} {change : τ → α × σ}

@[simp]
theorem settle_ok (t : τ) : settle s change (.ok t) = (.ok (change t).1, (change t).2) :=
  rfl

theorem settle_check {result : Except Refusal β} {f : β → InPlace σ α}
    {g : β → Except Refusal τ}
    (h : ∀ b, result = .ok b → (f b).call s = settle s change (g b)) :
    (check result >>= f).call s = settle s change (result >>= g) := by
  cases result with
  | error cause =>
      rfl
  | ok b =>
      exact h b rfl

theorem settle_ask {result : σ → Except Refusal β} {f : β → InPlace σ α}
    {g : β → Except Refusal τ}
    (h : ∀ b, result s = .ok b → (f b).call s = settle s change (g b)) :
    (ask result >>= f).call s = settle s change (result s >>= g) :=
  settle_check h

theorem settle_refuseIf {p : Prop} [Decidable p] {cause : Refusal} {f : Unit → InPlace σ α}
    {result : Except Refusal τ} (h : ¬ p → (f ()).call s = settle s change result) :
    (refuseIf p cause >>= f).call s =
      settle s change (if p then .error cause else result) := by
  by_cases hp : p
  · simp only [refuseIf, if_pos hp]
    rfl
  · simp only [refuseIf, if_neg hp]
    exact h hp

theorem settle_refuseUnless {p : Prop} [Decidable p] {cause : Refusal}
    {f : Unit → InPlace σ α} {result : Except Refusal τ}
    (h : p → (f ()).call s = settle s change result) :
    (refuseUnless p cause >>= f).call s =
      settle s change (if p then result else .error cause) := by
  by_cases hp : p
  · simp only [refuseUnless, if_pos hp]
    exact h hp
  · simp only [refuseUnless, if_neg hp]
    rfl

theorem settle_refuseIf_bind {p : Prop} [Decidable p] {cause : Refusal}
    {f : Unit → InPlace σ α} {result : Except Refusal υ} {g : υ → Except Refusal τ}
    (h : ¬ p → (f ()).call s = settle s change (result >>= g)) :
    (refuseIf p cause >>= f).call s =
      settle s change ((if p then .error cause else result) >>= g) := by
  by_cases hp : p
  · simp only [refuseIf, if_pos hp]
    rfl
  · simp only [refuseIf, if_neg hp]
    exact h hp

theorem settle_answer {m : InPlace σ α} {result : Except Refusal τ} (f : α → β)
    (h : m.call s = settle s change result) :
    (m >>= fun a => pure (f a)).call s =
      settle s id (result.map fun t => (f (change t).1, (change t).2)) := by
  rw [call_bind, h]
  cases result with
  | error cause =>
      rfl
  | ok t =>
      rfl

end InPlace

namespace Data
namespace WriterCall

open InPlace

variable {w : Writer}

def silently (w : Writer) : Unit × Writer :=
  ((), w)

/-!
# Configuration and declarations
-/

theorem call_configure (config : Config) :
    (configure config).call w = settle w silently (w.configure config) := by
  unfold configure Writer.configure
  refine settle_refuseIf fun _ => ?_
  refine settle_refuseIf fun _ => ?_
  rfl

theorem call_declare (name : String) (declaration : Declaration) :
    (declare name declaration).call w = settle w silently (w.declare name declaration) := by
  unfold declare Writer.declare
  refine settle_refuseIf fun _ => ?_
  rfl

theorem call_declareNumbers (name text : String) (numbers : NumberType) :
    (declareNumbers name text numbers).call w =
      settle w silently (w.declareNumbers name text numbers) := by
  unfold declareNumbers Writer.declareNumbers
  refine settle_check fun config _ => ?_
  refine settle_refuseIf fun _ => ?_
  refine settle_refuseIf fun _ => ?_
  exact call_declare name _

theorem call_declareSpace (name text : String) (fill : UInt64) :
    (declareSpace name text fill).call w =
      settle w silently (w.declareSpace name text fill) := by
  unfold declareSpace Writer.declareSpace
  refine settle_check fun _ _ => ?_
  exact call_declare name _

theorem call_declareStrings (name text : String) (terminated : Bool) :
    (declareStrings name text terminated).call w =
      settle w silently (w.declareStrings name text terminated) := by
  unfold declareStrings Writer.declareStrings
  refine settle_check fun _ _ => ?_
  exact call_declare name _

/-!
# Sections
-/

theorem call_openSection : openSection.call w = settle w silently w.openSection := by
  unfold openSection Writer.openSection
  refine settle_check fun _ _ => ?_
  refine settle_refuseIf fun _ => ?_
  rfl

theorem call_closeSection : closeSection.call w = settle w silently w.closeSection := by
  unfold closeSection Writer.closeSection
  rw [call_bind]
  cases hopened : w.opened with
  | none =>
      have htaken : takeSection.call w = (.ok none, w) := by
        rw [takeSection, call_get_bind, call_modify_bind, hopened]
        congr 1
        rw [← hopened]
      rw [htaken]
      rfl
  | some opened =>
      rw [takeSection, call_get_bind, call_modify_bind, hopened]
      rfl

theorem currentSection_eq_ok {opened : OpenSection} :
    w.currentSection = .ok opened ↔ w.opened = some opened := by
  unfold Writer.currentSection
  cases w.opened with
  | none =>
      simp
  | some _ =>
      simp

theorem append_eq {opened : OpenSection} (hopened : w.opened = some opened) (record : Record)
    (cursor : UInt64) :
    { w with
      opened := w.opened.map fun s => { s with records := s.records ++ [record] }
      cursor } = w.append opened record cursor := by
  rw [hopened]
  rfl

theorem call_label (name : String) : (label name).call w = settle w id (w.label name) := by
  unfold label Writer.label
  rw [call_get_bind]
  refine settle_ask fun opened hopened => ?_
  rw [currentSection_eq_ok] at hopened
  exact congrArg (Prod.mk _) (append_eq hopened _ w.cursor)

theorem call_moveTo (address : UInt64) :
    (moveTo address).call w = settle w silently (w.moveTo address) := by
  unfold moveTo Writer.moveTo
  rw [call_get_bind]
  refine settle_ask fun opened hopened => ?_
  rw [currentSection_eq_ok] at hopened
  refine settle_refuseIf fun _ => ?_
  exact congrArg (Prod.mk _) (append_eq hopened _ address)

theorem call_align (alignment : UInt64) :
    (align alignment).call w = settle w silently (w.align alignment) := by
  unfold align Writer.align
  refine settle_refuseIf fun _ => ?_
  rw [call_get_bind]
  refine settle_ask fun opened hopened => ?_
  rw [currentSection_eq_ok] at hopened
  refine settle_check fun aligned _ => ?_
  by_cases hpadding : w.cursor < aligned
  · rw [if_pos hpadding, if_pos hpadding]
    exact congrArg (Prod.mk _) (append_eq hopened _ aligned)
  · rw [if_neg hpadding, if_neg hpadding]
    rfl

/-!
# Data
-/

theorem call_advance (units : Nat) :
    (advance units).call w = settle w (fun next => (w.cursor, { w with cursor := next }))
      (w.inAddressSpace (w.cursor.toNat + units) units) := by
  rw [advance, call_get_bind]
  cases w.inAddressSpace (w.cursor.toNat + units) units with
  | error cause =>
      rfl
  | ok next =>
      rfl

theorem call_place {opened : OpenSection} (hopened : w.opened = some opened) (units : Nat)
    (record : UInt64 → Record) :
    (place units record).call w = settle w id (w.place units record) := by
  unfold place Writer.place
  rw [currentSection_eq_ok.mpr hopened, call_bind, call_advance]
  change _ = settle w id (w.inAddressSpace (w.cursor.toNat + units) units >>= _)
  cases w.inAddressSpace (w.cursor.toNat + units) units with
  | error cause =>
      rfl
  | ok next =>
      have hmoved : { w with cursor := next }.currentSection = .ok opened :=
        currentSection_eq_ok.mpr hopened
      change (check { w with cursor := next }.currentSection >>= _).call _ = _
      rw [hmoved]
      exact congrArg (Prod.mk _) (append_eq hopened _ next)

theorem call_placeNumbers (name : String) (values : List Value) :
    (placeNumbers name values).call w = settle w id (w.placeNumbers name values) := by
  unfold placeNumbers Writer.placeNumbers
  refine settle_ask fun opened hopened => ?_
  rw [currentSection_eq_ok] at hopened
  refine settle_ask fun declaration _ => ?_
  cases declaration with
  | type text numbers =>
      refine settle_refuseIf fun _ => ?_
      refine settle_check fun _ _ => ?_
      refine settle_ask fun config _ => ?_
      exact call_place hopened _ _
  | _ =>
      rfl

theorem call_placeSpace (name : String) (units : UInt64) :
    (placeSpace name units).call w = settle w id (w.placeSpace name units) := by
  unfold placeSpace Writer.placeSpace
  refine settle_ask fun opened hopened => ?_
  rw [currentSection_eq_ok] at hopened
  refine settle_ask fun declaration _ => ?_
  cases declaration with
  | space text fill =>
      refine settle_refuseIf fun _ => ?_
      exact call_place hopened _ _
  | _ =>
      rfl

theorem call_placeStrings (name : String) (strings : List String) :
    (placeStrings name strings).call w = settle w id (w.placeStrings name strings) := by
  unfold placeStrings Writer.placeStrings
  refine settle_ask fun opened hopened => ?_
  rw [currentSection_eq_ok] at hopened
  refine settle_ask fun declaration _ => ?_
  cases declaration with
  | string text terminated =>
      refine settle_refuseIf fun _ => ?_
      refine settle_ask fun config _ => ?_
      exact call_place hopened _ _
  | _ =>
      rfl

/-!
# Operations
-/

/-- Every operation is settled. -/
theorem call_perform (operation : Operation) :
    (perform operation).call w = settle w id (w.perform operation) := by
  cases operation with
  | configure config =>
      exact settle_answer _ (call_configure config)
  | declareNumbers name text numbers =>
      exact settle_answer _ (call_declareNumbers name text numbers)
  | declareSpace name text fill =>
      exact settle_answer _ (call_declareSpace name text fill)
  | declareStrings name text terminated =>
      exact settle_answer _ (call_declareStrings name text terminated)
  | openSection =>
      exact settle_answer _ call_openSection
  | closeSection =>
      exact settle_answer _ call_closeSection
  | label name =>
      exact settle_answer _ (call_label name)
  | moveTo address =>
      exact settle_answer _ (call_moveTo address)
  | align alignment =>
      exact settle_answer _ (call_align alignment)
  | placeNumbers name values =>
      exact settle_answer _ (call_placeNumbers name values)
  | placeSpace name units =>
      exact settle_answer _ (call_placeSpace name units)
  | placeStrings name strings =>
      exact settle_answer _ (call_placeStrings name strings)

end WriterCall
end Data
end Stimulus
