import CdkSystem.Queries
import CdkSystem.Lib.Outline

/-!
# Functions that return errors

A function of the service returns a result or an error, and uses the database on the way. `Go` is
the monad of such functions: a statement that fails ends the function with an error, as the line
`if err != nil` after it does. `deferRollback` is a function body after `defer tx.Rollback(ctx)`.

The lemmas `Go.run_bind` and `Go.run_query` put the run of a function into the form of a program
with its first operation in front.
-/

namespace CdkSystem

open RowLock

/-- Errors: those of the database, those with a text, and those with a context around another. -/
inductive GoError where
  /-- An error of the database or the connection. -/
  | database
  /-- `pgx.ErrNoRows`. -/
  | noRows
  /-- `ErrIdempotencyConflict`. -/
  | idempotencyConflict
  /-- `errors.New(message)`. -/
  | text (message : String)
  /-- `fmt.Errorf("context: %w", err)`. -/
  | wrap (context : String) (err : GoError)
  deriving DecidableEq, Repr

/-- The transactions that a call can hold at one time. -/
inductive Slot where
  /-- `tx`. -/
  | tx
  /-- `idempotencyTx`. -/
  | idempotencyTx
  deriving DecidableEq, Repr

instance : Fintype Slot := ⟨{.tx, .idempotencyTx}, by rintro (_ | _) <;> simp⟩

/-- Programs of the service, which ask for transactions, queries and answers from outside. -/
abbrev M (α : Type) := TxProg Slot Query Env Query.Ans Env.Ans α

/-- Functions that return a result or an error. -/
abbrev Go (α : Type) := ExceptT GoError (TxProg Slot Query Env Query.Ans Env.Ans) α

/-- A question to the outside world, outside a function that returns errors. -/
def ask (e : Env) : M e.Ans := Prog.op (.env e) fun a => .ret a

/-- The question comes first, and the rest of the program goes on with its answer. -/
@[simp]
theorem ask_bind {R : Type} (e : Env) (K : e.Ans → M R) :
    (ask e >>= K) = Prog.op (.env e) fun (a : e.Ans) => K a := rfl

namespace Go

variable {α β R : Type}

/-- `pool.Begin`, where an error is returned as `err`. -/
def begin (err : GoError) (t : Slot) : Go Unit :=
  ExceptT.mk <| Prog.op (.begin t) fun
    | .error _ => .ret (.error err)
    | .ok a => .ret (.ok a)

/-- A query in a transaction, where an error is returned as `err`. -/
def query (err : GoError) (t : Slot) (q : Query) : Go q.Ans :=
  ExceptT.mk <| Prog.op (.query t q) fun
    | .error _ => .ret (.error err)
    | .ok a => .ret (.ok a)

/-- `tx.Commit`, where an error is returned as `err`. -/
def commit (err : GoError) (t : Slot) : Go Unit :=
  ExceptT.mk <| Prog.op (.commit t) fun
    | .error _ => .ret (.error err)
    | .ok a => .ret (.ok a)

/-- A query outside a transaction, where an error is returned as `err`. -/
def auto (err : GoError) (q : Query) : Go q.Ans :=
  ExceptT.mk <| Prog.op (.auto q) fun
    | .error _ => .ret (.error err)
    | .ok a => .ret (.ok a)

/-- A question to the outside world, which returns no error. -/
def env (e : Env) : Go e.Ans := ExceptT.mk <| Prog.op (.env e) fun a => .ret (.ok a)

/-- The body of a function after `defer tx.Rollback(ctx)`. -/
def deferRollback (t : Slot) (body : Go α) : Go α :=
  ExceptT.mk <| body.run >>= fun r => Prog.op (.rollback t) fun _ => .ret r

/-- A call whose error is returned with a context. -/
def withContext (context : String) (x : Go α) : Go α :=
  ExceptT.mk <| x.run >>= fun r => .ret (r.mapError (.wrap context))

/-- What follows a function is done with its result, or its error is returned. -/
theorem run_bind (x : Go α) (f : α → Go β) (K : Except GoError β → M R) :
    ((x >>= f).run >>= K) = x.run >>= fun
      | .ok a => (f a).run >>= K
      | .error e => K (.error e) := by
  rw [ExceptT.run_bind, Prog.bind_assoc]
  congr 1
  funext r
  cases r <;> rfl

/-- Opening a transaction comes first; what follows depends on whether it has succeeded. -/
theorem run_begin (err : GoError) (t : Slot) (K : Except GoError Unit → M R) :
    ((begin err t).run >>= K) = Prog.op (.begin t) fun
      | .error _ => K (.error err)
      | .ok a => K (.ok a) := by
  unfold begin
  rw [ExceptT.run_mk, Prog.op_bind]
  congr 1
  funext r
  cases r <;> rfl

/-- The query comes first; what follows depends on its answer, or on its failure. -/
theorem run_query (err : GoError) (t : Slot) (q : Query) (K : Except GoError q.Ans → M R) :
    ((query err t q).run >>= K) = Prog.op (.query t q) fun
      | .error _ => K (.error err)
      | .ok a => K (.ok a) := by
  unfold query
  rw [ExceptT.run_mk, Prog.op_bind]
  congr 1
  funext r
  cases r <;> rfl

/-- The commit comes first; what follows depends on whether it has succeeded. -/
theorem run_commit (err : GoError) (t : Slot) (K : Except GoError Unit → M R) :
    ((commit err t).run >>= K) = Prog.op (.commit t) fun
      | .error _ => K (.error err)
      | .ok a => K (.ok a) := by
  unfold commit
  rw [ExceptT.run_mk, Prog.op_bind]
  congr 1
  funext r
  cases r <;> rfl

/-- The query outside a transaction comes first. -/
theorem run_auto (err : GoError) (q : Query) (K : Except GoError q.Ans → M R) :
    ((auto err q).run >>= K) = Prog.op (.auto q) fun
      | .error _ => K (.error err)
      | .ok a => K (.ok a) := by
  unfold auto
  rw [ExceptT.run_mk, Prog.op_bind]
  congr 1
  funext r
  cases r <;> rfl

/-- The rollback comes after the body, whatever the body has returned. -/
theorem run_deferRollback (t : Slot) (body : Go α) (K : Except GoError α → M R) :
    ((deferRollback t body).run >>= K) =
      body.run >>= fun r => Prog.op (.rollback t) fun _ => K r := by
  unfold deferRollback
  rw [ExceptT.run_mk, Prog.bind_assoc]
  rfl

/-- What follows a call gets its error with the context. -/
theorem run_withContext (context : String) (x : Go α) (K : Except GoError α → M R) :
    ((withContext context x).run >>= K) =
      x.run >>= fun r => K (r.mapError (.wrap context)) := by
  unfold withContext
  rw [ExceptT.run_mk, Prog.bind_assoc]
  rfl

end Go

end CdkSystem
