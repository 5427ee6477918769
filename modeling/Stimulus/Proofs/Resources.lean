import Stimulus.Primitive.Basic

/-!
# Resources up to spelling

## Respelling

A primitive is respelled by writing its name and every name in it as its key.  Two
primitives denote the same resource exactly if they are respelled alike, so that it does
not matter which of them is asked about the other.
-/

namespace Stimulus

mutual

def Argument.respelled : Argument → Argument
  | .primitive kind name args =>
      .primitive kind (Key.ofName name).text (Argument.respelledAll args)
  | a => a

def Argument.respelledAll : List Argument → List Argument
  | [] => []
  | a :: rest => a.respelled :: Argument.respelledAll rest

end

def Primitive.respelled (p : Primitive) : Primitive :=
  ⟨p.kind, (Key.ofName p.name).text, Argument.respelledAll p.args⟩

theorem Key.text_inj {k k' : Key} : k.text = k'.text ↔ k = k' := by
  rcases k with ⟨text⟩
  rcases k' with ⟨text'⟩
  simp

mutual

theorem Argument.sameUpToSpelling_iff : ∀ a b : Argument,
    a.sameUpToSpelling b = true ↔ a.respelled = b.respelled
  | .primitive kind name args, b => by
      cases b with
      | primitive kind' name' args' =>
          simp only [sameUpToSpelling, respelled, Bool.and_eq_true, beq_iff_eq, primitive.injEq,
            Key.text_inj, Argument.allSameUpToSpelling_iff args args', and_assoc]
      | _ => simp [sameUpToSpelling, respelled]
  | .concrete _, b | .random _, b | .placeholder _, b => by
      cases b <;> simp [sameUpToSpelling, respelled]

theorem Argument.allSameUpToSpelling_iff : ∀ as bs : List Argument,
    Argument.allSameUpToSpelling as bs = true ↔
      Argument.respelledAll as = Argument.respelledAll bs
  | [], bs => by
      cases bs <;> simp [Argument.allSameUpToSpelling, Argument.respelledAll]
  | a :: as, bs => by
      cases bs with
      | nil => simp [Argument.allSameUpToSpelling, Argument.respelledAll]
      | cons b bs =>
          simp only [Argument.allSameUpToSpelling, Argument.respelledAll, Bool.and_eq_true,
            List.cons.injEq, Argument.sameUpToSpelling_iff a b,
            Argument.allSameUpToSpelling_iff as bs]

end

namespace Primitive

/-- Two primitives denote the same resource exactly if they are respelled alike. -/
theorem sameUpToSpelling_iff_respelled {p q : Primitive} :
    p.sameUpToSpelling q = true ↔ p.respelled = q.respelled := by
  rw [sameUpToSpelling, Argument.sameUpToSpelling_iff]
  simp [toArgument, Argument.respelled, respelled]

theorem sameUpToSpelling_comm (p q : Primitive) :
    p.sameUpToSpelling q = q.sameUpToSpelling p := by
  rw [Bool.eq_iff_iff, sameUpToSpelling_iff_respelled, sameUpToSpelling_iff_respelled]
  exact eq_comm

end Primitive
end Stimulus
