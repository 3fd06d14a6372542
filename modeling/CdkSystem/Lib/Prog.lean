import Mathlib.Tactic

/-!
# Programs over operations

A program is a tree: it either has returned (`ret`) or asks its environment for an operation and
goes on with the answer (`op`). Programs form a monad, so a function of a sequential language with
effects is written as a `do` block, one operation for each effect; what an operation does is left to
the semantics that runs the program.

The lemmas `ret_bind`, `op_bind` and `bind_assoc` put any program that is built with `do` into the
form `op o k`, one operation in front and the rest of the program behind it.
-/

/-- A program that asks for operations of `Op`, goes on with their answers, and returns an `α`. -/
inductive Prog (Op : Type) (Ans : Op → Type) (α : Type) : Type where
  /-- The program has returned. -/
  | ret (a : α)
  /-- The program asks for the operation `o` and goes on with its answer. -/
  | op (o : Op) (k : Ans o → Prog Op Ans α)

namespace Prog

variable {Op : Type} {Ans : Op → Type} {α β γ : Type}

/-- Run a program, then go on with what it returned. -/
def bind : Prog Op Ans α → (α → Prog Op Ans β) → Prog Op Ans β
  | ret a, f => f a
  | op o k, f => op o fun x => (k x).bind f

instance : Monad (Prog Op Ans) where
  pure := ret
  bind := bind

/-- The program that asks for one operation and returns its answer. -/
def perform (o : Op) : Prog Op Ans (Ans o) := op o ret

/-- A returned program goes on at once. -/
@[simp]
theorem ret_bind (a : α) (f : α → Prog Op Ans β) : (ret a >>= f) = f a := rfl

/-- What follows a program moves behind its first operation. -/
@[simp]
theorem op_bind (o : Op) (k : Ans o → Prog Op Ans α) (f : α → Prog Op Ans β) :
    (op o k >>= f) = op o fun x => k x >>= f := rfl

/-- Going on with `ret` changes nothing: it is the right unit of sequencing. -/
@[simp]
theorem bind_ret (p : Prog Op Ans α) : (p >>= ret) = p := by
  induction p with
  | ret a => rfl
  | op o k ih =>
    rw [op_bind]
    congr 1
    funext x
    exact ih x

/-- Sequencing is associative, so the parts of a program can be put together in any order. -/
@[simp]
theorem bind_assoc (p : Prog Op Ans α) (f : α → Prog Op Ans β) (g : β → Prog Op Ans γ) :
    (p >>= f >>= g) = p >>= fun a => f a >>= g := by
  induction p with
  | ret a => rfl
  | op o k ih =>
    rw [op_bind, op_bind, op_bind]
    congr 1
    funext x
    exact ih x

instance : LawfulMonad (Prog Op Ans) :=
  LawfulMonad.mk' _ (fun p => bind_ret p) (fun a f => ret_bind a f) fun p f g => bind_assoc p f g

end Prog
