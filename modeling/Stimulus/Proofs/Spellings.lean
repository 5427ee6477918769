import Stimulus.Data.Writer
import Stimulus.Pattern.Register
import Stimulus.Pattern.Stream
import Stimulus.Request.Options
import Mathlib.Data.List.Forall2

/-!
# Spellings

## One name, several spellings

Two spellings of a name have one key.  Whatever is looked up by name is found under the
one spelling exactly if it is found under the other, and it is the same thing.

## Answers

Two computations answer alike if they accept with the same value, or if both refuse and
the causes differ at most in the spelling of the name that they quote.
-/

namespace Stimulus

def SpelledAlike (name name' : String) : Prop :=
  Key.ofName name = Key.ofName name'

instance (name name' : String) : Decidable (SpelledAlike name name') :=
  inferInstanceAs (Decidable (_ = _))

/-!
# Refusals that quote a name
-/

inductive Quotation where
  | notInModel
  | aliasDeclaredTwice
  | aliasNeverDeclared
  | aliasOfOtherKind (expected : DeclarationKind)
  | unknownOption

namespace Quotation

def refusal (name : String) : Quotation → Refusal
  | notInModel => .structural (.notInModel name)
  | aliasDeclaredTwice => .structural (.aliasDeclaredTwice name)
  | aliasNeverDeclared => .structural (.aliasNeverDeclared name)
  | aliasOfOtherKind expected => .structural (.aliasOfOtherKind name expected)
  | unknownOption => .option (.unknown name)

private theorem frame_append (a b name c : String) :
    a ++ (b ++ name ++ c) = a ++ b ++ name ++ c := by
  simp only [String.append_assoc]

theorem message_refusal (q : Quotation) :
    ∃ opening closing, ∀ name, (q.refusal name).message = opening ++ name ++ closing := by
  cases q with
  | notInModel => exact ⟨_, _, fun name => frame_append _ _ name _⟩
  | aliasDeclaredTwice => exact ⟨_, _, fun name => frame_append _ _ name _⟩
  | aliasNeverDeclared => exact ⟨_, _, fun name => frame_append _ _ name _⟩
  | aliasOfOtherKind expected =>
      refine ⟨"structural error: " ++ "data alias '",
        "' does not name a " ++ (expected.text ++ " declaration"), fun name => ?_⟩
      refine Eq.trans ?_ (frame_append _ _ name _)
      refine congrArg ("structural error: " ++ ·) ?_
      exact String.append_assoc.trans String.append_assoc
  | unknownOption => exact ⟨_, _, fun name => frame_append _ _ name _⟩

end Quotation

/-- Two causes that differ at most in the spelling of the name that they quote. -/
inductive Refusal.Respelled : Refusal → Refusal → Prop where
  | same (cause : Refusal) : Respelled cause cause
  | quoted (q : Quotation) {name name' : String} (h : SpelledAlike name name') :
      Respelled (q.refusal name) (q.refusal name')

theorem Refusal.Respelled.message {cause cause' : Refusal} (h : cause.Respelled cause') :
    cause = cause' ∨ ∃ name name' opening closing, SpelledAlike name name' ∧
      cause.message = opening ++ name ++ closing ∧
        cause'.message = opening ++ name' ++ closing := by
  cases h with
  | same =>
      exact Or.inl rfl
  | quoted q h =>
      rcases q.message_refusal with ⟨opening, closing, hmessage⟩
      exact Or.inr ⟨_, _, opening, closing, h, hmessage _, hmessage _⟩

/-!
# Answers
-/

inductive SameAnswer {α : Type} : Except Refusal α → Except Refusal α → Prop where
  | accepted (a : α) : SameAnswer (.ok a) (.ok a)
  | refused {cause cause' : Refusal} (h : cause.Respelled cause') :
      SameAnswer (.error cause) (.error cause')

namespace SameAnswer

variable {α β : Type} {x x' : Except Refusal α}

theorem refl (x : Except Refusal α) : SameAnswer x x := by
  cases x with
  | error cause => exact .refused (.same cause)
  | ok a => exact .accepted a

theorem quoted (q : Quotation) {name name' : String} (h : SpelledAlike name name') :
    SameAnswer (.error (q.refusal name) : Except Refusal α) (.error (q.refusal name')) :=
  .refused (.quoted q h)

theorem bind (h : SameAnswer x x') {f f' : α → Except Refusal β}
    (hf : ∀ a, SameAnswer (f a) (f' a)) : SameAnswer (x >>= f) (x' >>= f') := by
  cases h with
  | accepted a => exact hf a
  | refused hcause => exact .refused hcause

theorem map (h : SameAnswer x x') (f : α → β) : SameAnswer (x.map f) (x'.map f) := by
  cases h with
  | accepted a => exact .accepted (f a)
  | refused hcause => exact .refused hcause

end SameAnswer

/-!
# Models
-/

namespace Model

variable {name name' : String}

theorem find?_respelled (model : Model) (kind : PrimitiveKind) (h : SpelledAlike name name') :
    model.find? kind name = model.find? kind name' :=
  congrArg (model.atKey? kind) h

theorem resolve_respelled (model : Model) (kind : PrimitiveKind) (count : Nat)
    (h : SpelledAlike name name') :
    SameAnswer (model.resolve kind name count) (model.resolve kind name' count) := by
  unfold resolve
  rw [model.find?_respelled kind h]
  cases model.find? kind name' with
  | none => exact .quoted .notInModel h
  | some entry => exact .refl _

theorem primitive_respelled (model : Model) (kind : PrimitiveKind) (args : List Argument)
    (h : SpelledAlike name name') :
    SameAnswer (model.primitive kind name args) (model.primitive kind name' args) :=
  (model.resolve_respelled kind args.length h).bind fun _ => .refl _

end Model

/-!
# Preparators
-/

private theorem twoNeeds_eq_ok {ε α : Type} (first second : α → Bool) {cause cause' : ε}
    {a b : α} :
    (if !first a then .error cause else if !second a then .error cause' else .ok a) =
        (.ok b : Except ε α) ↔ b = a ∧ first b = true ∧ second b = true := by
  constructor
  · intro h
    split at h
    · cases h
    · rename_i hfirst
      split at h
      · cases h
      · rename_i hsecond
        cases h
        exact ⟨rfl, by simpa using hfirst, by simpa using hsecond⟩
  · intro h
    rcases h with ⟨rfl, hfirst, hsecond⟩
    simp [hfirst, hsecond]

namespace CallPattern

variable {ρ : Type} {c c' : CallPattern ρ} {calls calls' : List (CallPattern ρ)}

structure Respelled (c c' : CallPattern ρ) : Prop where
  mnemonic : SpelledAlike c.mnemonic c'.mnemonic
  operands : c.operands = c'.operands

theorem canonical_respelled (model : Model) (h : c.Respelled c') :
    SameAnswer (c.canonical model) (c'.canonical model) := by
  unfold canonical
  rw [h.operands]
  exact (model.resolve_respelled .instruction _ h.mnemonic).bind fun _ => .refl _

theorem canonicalAll_respelled (model : Model) (h : List.Forall₂ Respelled calls calls') :
    SameAnswer (canonicalAll model calls) (canonicalAll model calls') := by
  induction h with
  | nil =>
      exact .refl _
  | cons hfirst _ ih =>
      exact (canonical_respelled model hfirst).bind fun _ => ih.bind fun _ => .refl _

theorem any_operands_respelled (uses : Operand ρ → Bool)
    (h : List.Forall₂ Respelled calls calls') :
    (calls.any fun c => c.operands.any uses) = calls'.any fun c => c.operands.any uses := by
  induction h with
  | nil =>
      rfl
  | cons hfirst _ ih =>
      rw [List.any_cons, List.any_cons, ih, hfirst.operands]

end CallPattern

namespace StreamPreparator

variable {p p' : StreamPreparator}

structure Respelled (p p' : StreamPreparator) : Prop where
  key : p.key = p'.key
  init : List.Forall₂ CallPattern.Respelled p.init p'.init
  read : List.Forall₂ CallPattern.Respelled p.read p'.read
  write : List.Forall₂ CallPattern.Respelled p.write p'.write

theorem canonical_respelled (model : Model) (h : p.Respelled p') :
    SameAnswer (p.canonical model) (p'.canonical model) := by
  unfold canonical
  rw [h.key]
  dsimp only
  split
  · exact .refl _
  · split
    · exact .refl _
    · exact (CallPattern.canonicalAll_respelled model h.init).bind fun _ =>
        (CallPattern.canonicalAll_respelled model h.read).bind fun _ =>
          (CallPattern.canonicalAll_respelled model h.write).bind fun _ => .refl _

theorem Respelled.initUses (h : p.Respelled p') (hole : StreamHole) :
    p.initUses hole = p'.initUses hole :=
  CallPattern.any_operands_respelled _ h.init

def select (part : StreamPart) (calls : List (StreamPart × CallPattern StreamHole)) :
    List (CallPattern StreamHole) :=
  (calls.filter fun call => call.1 == part).map Prod.snd

theorem ofCalls_eq_ok {data index : String}
    {calls : List (StreamPart × CallPattern StreamHole)} :
    ofCalls data index calls = .ok p ↔
      p = ⟨.ofNames data index, select .init calls, select .read calls, select .write calls⟩ ∧
        p.initUses .index = true ∧ p.initUses .startLabel = true :=
  twoNeeds_eq_ok (initUses · .index) (initUses · .startLabel)

theorem respelled_select {calls calls' : List (StreamPart × CallPattern StreamHole)}
    (h : List.Forall₂ (fun call call' => call.1 = call'.1 ∧ call.2.Respelled call'.2)
      calls calls') (part : StreamPart) :
    List.Forall₂ CallPattern.Respelled (select part calls) (select part calls') := by
  unfold select
  induction h with
  | nil =>
      exact .nil
  | cons hfirst _ ih =>
      rw [List.filter_cons, List.filter_cons, hfirst.left]
      split
      · exact .cons hfirst.right ih
      · exact ih

theorem respelled_ofCalls {data data' index index' : String}
    {calls calls' : List (StreamPart × CallPattern StreamHole)}
    (hdata : SpelledAlike data data') (hindex : SpelledAlike index index')
    (hcalls : List.Forall₂ (fun call call' => call.1 = call'.1 ∧ call.2.Respelled call'.2)
      calls calls')
    (h : ofCalls data index calls = .ok p) :
    ∃ p', ofCalls data' index' calls' = .ok p' ∧ p.Respelled p' := by
  rcases ofCalls_eq_ok.mp h with ⟨hp, husesIndex, husesStart⟩
  let p' : StreamPreparator :=
    ⟨.ofNames data' index', select .init calls', select .read calls', select .write calls'⟩
  have hkey : StreamKey.ofNames data index = .ofNames data' index' :=
    congrArg₂ StreamKey.mk hdata hindex
  have hrespelled : p.Respelled p' := by
    rw [hp]
    exact ⟨hkey, respelled_select hcalls .init, respelled_select hcalls .read,
      respelled_select hcalls .write⟩
  rw [hrespelled.initUses] at husesIndex husesStart
  exact ⟨p', ofCalls_eq_ok.mpr ⟨rfl, husesIndex, husesStart⟩, hrespelled⟩

end StreamPreparator

namespace RegisterPreparator

variable {p p' : RegisterPreparator}

structure Respelled (p p' : RegisterPreparator) : Prop where
  target : SpelledAlike p.target p'.target
  variant : p.variant = p'.variant
  calls : List.Forall₂ CallPattern.Respelled p.calls p'.calls

theorem canonical_respelled (model : Model) (h : p.Respelled p') :
    SameAnswer (p.canonical model) (p'.canonical model) := by
  unfold canonical
  rw [model.find?_respelled .mode h.target, h.variant]
  cases model.find? .mode p'.target with
  | none =>
      exact .quoted .notInModel h.target
  | some entry =>
      exact (CallPattern.canonicalAll_respelled model h.calls).bind fun _ => .refl _

theorem Respelled.uses (h : p.Respelled p') (need : RegisterNeed) :
    p.uses need = p'.uses need :=
  CallPattern.any_operands_respelled _ h.calls

theorem ofCalls_eq_ok {target : String} {variant : Option String}
    {calls : List (CallPattern RegisterHole)} :
    ofCalls target variant calls = .ok p ↔
      p = ⟨target, variant, calls⟩ ∧ p.uses .target = true ∧ p.uses .value = true :=
  twoNeeds_eq_ok (uses · .target) (uses · .value)

theorem respelled_ofCalls {target target' : String} {variant : Option String}
    {calls calls' : List (CallPattern RegisterHole)} (htarget : SpelledAlike target target')
    (hcalls : List.Forall₂ CallPattern.Respelled calls calls')
    (h : ofCalls target variant calls = .ok p) :
    ∃ p', ofCalls target' variant calls' = .ok p' ∧ p.Respelled p' := by
  rcases ofCalls_eq_ok.mp h with ⟨hp, husesTarget, husesValue⟩
  have hrespelled : p.Respelled ⟨target', variant, calls'⟩ := by
    rw [hp]
    exact ⟨htarget, rfl, hcalls⟩
  rw [hrespelled.uses] at husesTarget husesValue
  exact ⟨_, ofCalls_eq_ok.mpr ⟨rfl, husesTarget, husesValue⟩, hrespelled⟩

end RegisterPreparator

/-!
# Options
-/

namespace Options

variable {name name' : String}

theorem setNamed_respelled (o : Options) (value : Setting) (h : SpelledAlike name name') :
    SameAnswer ((o.setNamed name value).mapError .option)
      ((o.setNamed name' value).mapError .option) := by
  unfold setNamed lookup OptionName.ofName?
  rw [h]
  split
  · exact .refl _
  · exact .quoted .unknownOption h

end Options

/-!
# Data
-/

namespace Data.Writer

variable {name name' : String}

theorem declare_respelled (w : Writer) (declaration : Declaration)
    (h : SpelledAlike name name') :
    SameAnswer (w.declare name declaration) (w.declare name' declaration) := by
  unfold declare
  rw [h]
  split
  · exact .quoted .aliasDeclaredTwice h
  · exact .refl _

theorem lookup_respelled (w : Writer) (h : SpelledAlike name name') :
    SameAnswer (w.lookup name) (w.lookup name') := by
  unfold lookup Layout.declaration?
  rw [h]
  split
  · exact .refl _
  · exact .quoted .aliasNeverDeclared h

theorem declareNumbers_respelled (w : Writer) (text : String) (numbers : NumberType)
    (h : SpelledAlike name name') :
    SameAnswer (w.declareNumbers name text numbers) (w.declareNumbers name' text numbers) := by
  unfold declareNumbers
  refine (SameAnswer.refl w.config).bind fun config => ?_
  dsimp only
  split
  · exact .refused (.same _)
  · split
    · exact .refused (.same _)
    · exact w.declare_respelled _ h

theorem placeNumbers_respelled (w : Writer) (values : List Value)
    (h : SpelledAlike name name') :
    SameAnswer (w.placeNumbers name values) (w.placeNumbers name' values) := by
  unfold placeNumbers
  refine (SameAnswer.refl w.currentSection).bind fun _ => ?_
  refine (w.lookup_respelled h).bind fun declaration => ?_
  cases declaration with
  | type text numbers => exact .refl _
  | space text fill => exact .quoted (.aliasOfOtherKind .type) h
  | string text terminated => exact .quoted (.aliasOfOtherKind .type) h

theorem placeSpace_respelled (w : Writer) (units : UInt64) (h : SpelledAlike name name') :
    SameAnswer (w.placeSpace name units) (w.placeSpace name' units) := by
  unfold placeSpace
  refine (SameAnswer.refl w.currentSection).bind fun _ => ?_
  refine (w.lookup_respelled h).bind fun declaration => ?_
  cases declaration with
  | type text numbers => exact .quoted (.aliasOfOtherKind .space) h
  | space text fill => exact .refl _
  | string text terminated => exact .quoted (.aliasOfOtherKind .space) h

theorem placeStrings_respelled (w : Writer) (strings : List String)
    (h : SpelledAlike name name') :
    SameAnswer (w.placeStrings name strings) (w.placeStrings name' strings) := by
  unfold placeStrings
  refine (SameAnswer.refl w.currentSection).bind fun _ => ?_
  refine (w.lookup_respelled h).bind fun declaration => ?_
  cases declaration with
  | type text numbers => exact .quoted (.aliasOfOtherKind .string) h
  | space text fill => exact .quoted (.aliasOfOtherKind .string) h
  | string text terminated => exact .refl _

end Data.Writer

inductive Data.Operation.Respelled : Operation → Operation → Prop where
  | same (operation : Operation) : Respelled operation operation
  | declareNumbers {name name' : String} (text : String) (numbers : NumberType)
      (h : SpelledAlike name name') :
      Respelled (.declareNumbers name text numbers) (.declareNumbers name' text numbers)
  | declareSpace {name name' : String} (text : String) (fill : UInt64)
      (h : SpelledAlike name name') :
      Respelled (.declareSpace name text fill) (.declareSpace name' text fill)
  | declareStrings {name name' : String} (text : String) (terminated : Bool)
      (h : SpelledAlike name name') :
      Respelled (.declareStrings name text terminated) (.declareStrings name' text terminated)
  | placeNumbers {name name' : String} (values : List Value) (h : SpelledAlike name name') :
      Respelled (.placeNumbers name values) (.placeNumbers name' values)
  | placeSpace {name name' : String} (units : UInt64) (h : SpelledAlike name name') :
      Respelled (.placeSpace name units) (.placeSpace name' units)
  | placeStrings {name name' : String} (strings : List String) (h : SpelledAlike name name') :
      Respelled (.placeStrings name strings) (.placeStrings name' strings)

theorem Data.Writer.perform_respelled (w : Writer) {operation operation' : Operation}
    (h : operation.Respelled operation') :
    SameAnswer (w.perform operation) (w.perform operation') := by
  cases h with
  | same => exact .refl _
  | declareNumbers text numbers h => exact (w.declareNumbers_respelled text numbers h).map _
  | declareSpace text fill h =>
      exact ((SameAnswer.refl w.config).bind fun _ => w.declare_respelled _ h).map _
  | declareStrings text terminated h =>
      exact ((SameAnswer.refl w.config).bind fun _ => w.declare_respelled _ h).map _
  | placeNumbers values h => exact (w.placeNumbers_respelled values h).map _
  | placeSpace units h => exact (w.placeSpace_respelled units h).map _
  | placeStrings strings h => exact (w.placeStrings_respelled strings h).map _

end Stimulus
