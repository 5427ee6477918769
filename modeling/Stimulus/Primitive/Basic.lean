import Stimulus.Text

/-!
# Primitives and their arguments

## Calls of the model

An instruction, an addressing mode or an operation applied to arguments is a
primitive.  An argument is a number, a random range, a placeholder that is
bound when the template is sealed, or a nested primitive.
-/

namespace Stimulus

inductive PrimitiveKind where
  | instruction
  | mode
  | operation
deriving DecidableEq

def PrimitiveKind.description : PrimitiveKind → String
  | instruction => "instruction"
  | mode => "addressing mode"
  | operation => "operation"

/-- A value that is not known yet: one that the engine chooses, or a label that
is resolved when the template is sealed. -/
inductive Placeholder where
  | unknown (index : Nat)
  | lazy (index : Nat)
deriving DecidableEq

def Placeholder.text : Placeholder → String
  | unknown index => "_" ++ toString index
  | lazy index => "&" ++ toString index

structure Span where
  min : Int64
  max : Int64
  min_le_max : min ≤ max
deriving DecidableEq

inductive Argument where
  | concrete (value : Int64)
  | random (span : Span)
  | placeholder (id : Placeholder)
  | primitive (kind : PrimitiveKind) (name : String) (args : List Argument)

structure Primitive where
  kind : PrimitiveKind
  name : String
  args : List Argument

def Primitive.toArgument (p : Primitive) : Argument :=
  .primitive p.kind p.name p.args

namespace Argument

def isPlaceholder : Argument → Bool
  | placeholder _ => true
  | _ => false

def primitive? : Argument → Option Primitive
  | primitive kind name args => some ⟨kind, name, args⟩
  | _ => none

/-!
# Equality
-/

mutual

def beq : Argument → Argument → Bool
  | concrete a, concrete b => a == b
  | random a, random b => a == b
  | placeholder a, placeholder b => a == b
  | primitive kind name args, primitive kind' name' args' =>
      kind == kind' && name == name' && beqAll args args'
  | _, _ => false

def beqAll : List Argument → List Argument → Bool
  | [], [] => true
  | a :: as, b :: bs => beq a b && beqAll as bs
  | _, _ => false

end

mutual

theorem beq_iff : ∀ a b : Argument, beq a b = true ↔ a = b
  | concrete a, b => by cases b <;> simp [beq]
  | random a, b => by cases b <;> simp [beq]
  | placeholder a, b => by cases b <;> simp [beq]
  | primitive kind name args, b => by
      cases b with
      | primitive kind' name' args' =>
          simp [beq, beqAll_iff args args', and_assoc]
      | _ => simp [beq]

theorem beqAll_iff : ∀ as bs : List Argument, beqAll as bs = true ↔ as = bs
  | [], bs => by cases bs <;> simp [beqAll]
  | a :: as, bs => by
      cases bs with
      | nil => simp [beqAll]
      | cons b bs => simp [beqAll, beq_iff a b, beqAll_iff as bs]

end

instance : DecidableEq Argument :=
  fun a b => decidable_of_iff (beq a b = true) (beq_iff a b)

end Argument

deriving instance DecidableEq for Primitive

/-!
# Text
-/

/-- A primitive whose arguments are already written.  The arguments of an
instruction follow its name; those of a mode or an operation stand in
parentheses, which are left out where there are none. -/
def Primitive.textOf (kind : PrimitiveKind) (name : String) (args : List String) :
    String :=
  if args.isEmpty then name
  else if kind = .instruction then name ++ " " ++ ", ".intercalate args
  else name ++ "(" ++ ", ".intercalate args ++ ")"

mutual

def Argument.text : Argument → String
  | .concrete value => toString value.toInt
  | .random span =>
      "rand(" ++ toString span.min.toInt ++ ", " ++ toString span.max.toInt ++ ")"
  | .placeholder id => id.text
  | .primitive kind name args => Primitive.textOf kind name (Argument.texts args)

def Argument.texts : List Argument → List String
  | [] => []
  | a :: rest => a.text :: Argument.texts rest

end

def Primitive.text (p : Primitive) : String :=
  Primitive.textOf p.kind p.name (Argument.texts p.args)

/-!
# Sameness up to spelling

Two primitives denote the same resource when they agree in everything but the
spelling of the names in them, at every depth.
-/

mutual

def Argument.sameUpToSpelling : Argument → Argument → Bool
  | .primitive kind name args, .primitive kind' name' args' =>
      kind == kind' && Key.ofName name == Key.ofName name' &&
        Argument.allSameUpToSpelling args args'
  | a, b => a == b

def Argument.allSameUpToSpelling : List Argument → List Argument → Bool
  | [], [] => true
  | a :: as, b :: bs => a.sameUpToSpelling b && Argument.allSameUpToSpelling as bs
  | _, _ => false

end

def Primitive.sameUpToSpelling (p q : Primitive) : Bool :=
  p.toArgument.sameUpToSpelling q.toArgument

end Stimulus
