import CdkSystem.Lib.Prog

/-!
# What a program asks for

A program's operations with their answers, the latest first, are its trace. `Follows R post` says of
a program, whatever it is answered, that each of its operations is one that `R` allows after the
trace before it, and that its result and the whole trace satisfy `post`. The rule for `bind`
(`Follows.bind`) puts such facts about parts of a program together.
-/

namespace Prog

variable {Op : Type} {Ans : Op → Type} {α β : Type}

/-- The operations of a program with their answers, the latest first. -/
abbrev Trace (Ans : Op → Type) := List (Σ o, Ans o)

/-- Each operation is allowed after the trace before it, and the result is right after the whole
trace. -/
def Follows (R : Trace Ans → Op → Prop) (post : Trace Ans → α → Prop) :
    Trace Ans → Prog Op Ans α → Prop
  | trace, ret a => post trace a
  | trace, op o k => R trace o ∧ ∀ x, Follows R post (⟨o, x⟩ :: trace) (k x)

variable {R : Trace Ans → Op → Prop} {trace : Trace Ans}

/-- What is right after a program that has returned. -/
@[simp]
theorem follows_ret {post : Trace Ans → α → Prop} {a : α} :
    Follows R post trace (ret a : Prog Op Ans α) ↔ post trace a := Iff.rfl

/-- The first operation is allowed, and the rest follows after each answer. -/
@[simp]
theorem follows_op {post : Trace Ans → α → Prop} {o : Op} {k : Ans o → Prog Op Ans α} :
    Follows R post trace (op o k) ↔ R trace o ∧ ∀ x, Follows R post (⟨o, x⟩ :: trace) (k x) :=
      Iff.rfl

/-- A weaker postcondition holds of a program that satisfies a stronger one. -/
theorem Follows.mono {post post' : Trace Ans → α → Prop} {p : Prog Op Ans α}
    (h : Follows R post trace p) (hpost : ∀ trace a, post trace a → post' trace a) :
    Follows R post' trace p := by
  induction p generalizing trace with
  | ret a => exact hpost _ _ h
  | op o k ih => exact ⟨h.1, fun x => ih x (h.2 x)⟩

/-- A program and what follows it, which goes on with the trace of the first part. -/
theorem Follows.bind {post : Trace Ans → β → Prop} {p : Prog Op Ans α} {f : α → Prog Op Ans β}
    (h : Follows R (fun trace a => Follows R post trace (f a)) trace p) :
    Follows R post trace (p >>= f) := by
  induction p generalizing trace with
  | ret a => exact h
  | op o k ih => exact ⟨h.1, fun x => ih x (h.2 x)⟩

end Prog
