import CdkSystem.Lib.Prog
import Mathlib.Data.Fintype.Card

/-!
# Interleaved transactions under row locks

Any number of programs share one database and run interleaved, statement by statement, under the
isolation level READ COMMITTED with exclusive row locks:

* a transaction's writes are kept apart (`Tx.writes`) and reach the committed tables together, at
  its commit; until then each of its statements sees the tables committed so far with its own
  writes on top (`Tx.view`);
* a statement that locks or writes a row needs the row's lock. The lock table `owner` gives each
  lock at most one owner, so two transactions cannot hold one lock; a statement whose locks are
  owned by another transaction is not enabled. Locks are released when the transaction ends;
* a statement outside a transaction (`TxOp.auto`) commits by itself;
* a transaction takes a connection of a pool, and neither `begin` nor a statement outside a
  transaction is enabled while none is free;
* a statement can fail (`Db.fail`); its transaction is then doomed and only rolls back. A program
  can also die between any two operations (`Action.crash`), and its transactions roll back.

What the tables are, what statements there are and what they do is a parameter (`Dbms`). A
statement that has a choice (which row to skip to, which text a random source returns) takes it
from an argument of its own, so the step function is a function and runs can be evaluated.

The state also has the log of the committed transactions, each with the tables before and after
it, and a flag for each program that one of its operations has failed or that it has died. No step
reads them: they are what properties of whole runs speak about.
-/

namespace RowLock

/-- Instants, in microseconds since the Unix epoch. -/
abbrev Time := ℤ

/-- A statement that the database could not execute. -/
inductive Failure where
  | failed
  deriving DecidableEq, Repr

/-- What programs ask for: operations on the transactions of their slots (a program can hold one
transaction in each slot), statements outside transactions, and answers of the environment. -/
inductive TxOp (Slot Q E : Type) : Type where
  /-- Open a transaction. -/
  | begin (t : Slot)
  /-- A statement in an open transaction. -/
  | query (t : Slot) (q : Q)
  /-- Commit a transaction. -/
  | commit (t : Slot)
  /-- Roll a transaction back; nothing happens when it is not open any more. -/
  | rollback (t : Slot)
  /-- A statement that is a transaction of its own. -/
  | auto (q : Q)
  /-- A question to the environment. -/
  | env (e : E)

/-- The answers of operations: a database operation succeeds with an answer or fails. -/
abbrev TxOp.Ans {Slot Q E : Type} (QA : Q → Type) (EA : E → Type) : TxOp Slot Q E → Type
  | .begin _ => Except Failure Unit
  | .query _ q => Except Failure (QA q)
  | .commit _ => Except Failure Unit
  | .rollback _ => Unit
  | .auto q => Except Failure (QA q)
  | .env e => EA e

/-- What a statement is executed against: the tables it sees, the sequences, and the locks of
others. -/
structure Ctx (T S L : Type) where
  /-- The start of the transaction: `NOW()`. -/
  now : Time
  /-- The sequences, which no rollback resets. -/
  seq : S
  /-- The committed tables with the transaction's own writes on top. -/
  view : T
  /-- Whether a lock is owned by another transaction. -/
  busy : L → Bool

/-- What a statement does: its answer, the rows it writes, the locks it takes and the sequences
after it. -/
structure Effect (S W L A : Type) where
  ans : A
  writes : List W
  locks : List L
  seq : S

/-- A database: its tables `T`, sequences `S`, writes `W`, locks `L` and statements `Q`, with the
environment's questions `E` and the choices `C` that resolve what is left open. -/
structure Dbms (T S W L Q E C : Type) (QA : Q → Type) (EA : E → Type) where
  /-- The tables after a write. -/
  apply : T → W → T
  /-- A statement's effect or failure. There is none when the choice is not one the statement has;
  an effect whose locks are busy is one the statement still waits for. -/
  exec : Ctx T S L → (q : Q) → C → Option (Except Failure (Effect S W L (QA q)))
  /-- The environment's answer at a time, if it gives one. -/
  env : Time → (e : E) → C → Option (EA e)

/-- An open transaction: its time, the changes that it has made so far, and whether it is doomed. -/
structure Tx (W : Type) where
  /-- When it began: its `NOW()`. -/
  start : Time
  /-- Its writes so far, oldest first. -/
  writes : List W
  /-- Whether one of its statements has failed. -/
  doomed : Bool

/-- A committed transaction: whose it was, when it committed, and the committed tables before and
after it. -/
structure Commit (ι T : Type) where
  caller : ι
  time : Time
  before : T
  after : T

/-- The state of the database and of its clients' connections; `ι` are the programs. -/
structure Db (ι Slot T S W L : Type) where
  /-- The committed tables. -/
  tables : T
  /-- The sequences. -/
  seq : S
  /-- The clock. -/
  clock : Time
  /-- The free connections of the pool. -/
  free : ℕ
  /-- The transaction that owns a lock. -/
  owner : L → Option (ι × Slot)
  /-- The open transactions. -/
  txs : ι → Slot → Option (Tx W)
  /-- The committed transactions, oldest first. -/
  log : List (Commit ι T)
  /-- Whether an operation of a program has failed or the program has died. -/
  failed : ι → Bool

section Semantics

variable {ι Slot T S W L Q E C R : Type} {QA : Q → Type} {EA : E → Type}

namespace Dbms

variable (D : Dbms T S W L Q E C QA EA)

/-- The tables after a list of writes, oldest first. -/
def applyAll (tables : T) (writes : List W) : T := writes.foldl D.apply tables

/-- A transaction without writes leaves the tables as they are. -/
@[simp]
theorem applyAll_nil (tables : T) : D.applyAll tables [] = tables := rfl

/-- The writes of a transaction are applied one after another, from the first one on. -/
@[simp]
theorem applyAll_cons (tables : T) (w : W) (ws : List W) :
    D.applyAll tables (w :: ws) = D.applyAll (D.apply tables w) ws := rfl

/-- Later writes are applied to what earlier ones left. -/
theorem applyAll_append (tables : T) (ws ws' : List W) :
    D.applyAll tables (ws ++ ws') = D.applyAll (D.applyAll tables ws) ws' :=
  List.foldl_append

end Dbms

namespace Db

variable [DecidableEq ι] [DecidableEq Slot] [DecidableEq L]

/-- Whether a lock is owned by a transaction other than `who`. -/
def busy (d : Db ι Slot T S W L) (who : Option (ι × Slot)) (l : L) : Bool :=
  (d.owner l).isSome && d.owner l ≠ who

/-- End the transaction of a slot: its locks and its connection are free again. -/
def close (d : Db ι Slot T S W L) (i : ι) (t : Slot) : Db ι Slot T S W L :=
  { d with
    owner := fun l => if d.owner l = some (i, t) then none else d.owner l
    txs := Function.update d.txs i (Function.update (d.txs i) t none)
    free := d.free + 1 }

/-- The state of a slot's transaction is replaced. -/
def setTx (d : Db ι Slot T S W L) (i : ι) (t : Slot) (tx : Tx W) : Db ι Slot T S W L :=
  { d with txs := Function.update d.txs i (Function.update (d.txs i) t (some tx)) }

/-- A statement of an open transaction takes its locks and adds its writes. -/
def grant (d : Db ι Slot T S W L) (i : ι) (t : Slot) (tx : Tx W) {A : Type} (e : Effect S W L A) :
    Db ι Slot T S W L :=
  { d.setTx i t { tx with writes := tx.writes ++ e.writes } with
    owner := fun l => if l ∈ e.locks then some (i, t) else d.owner l
    seq := e.seq }

/-- The committed tables are replaced and the commit is logged. -/
def record (d : Db ι Slot T S W L) (i : ι) (tables : T) : Db ι Slot T S W L :=
  { d with tables := tables, log := d.log ++ [⟨i, d.clock, d.tables, tables⟩] }

/-- An operation of a program has failed. -/
def flag (d : Db ι Slot T S W L) (i : ι) : Db ι Slot T S W L :=
  { d with failed := Function.update d.failed i true }

variable (D : Dbms T S W L Q E C QA EA)

/-- The operation `o` of program `i`, with the choice `c`: its answer and the state after it, or
nothing when it is not enabled. -/
def perform (d : Db ι Slot T S W L) (i : ι) :
    (o : TxOp Slot Q E) → C → Option (o.Ans QA EA × Db ι Slot T S W L)
  | .begin t, _ =>
    if d.free = 0 ∨ (d.txs i t).isSome then none
    else some (.ok (), { d.setTx i t ⟨d.clock, [], false⟩ with free := d.free - 1 })
  | .query t q, c =>
    match d.txs i t with
    | none => some (.error .failed, d.flag i)
    | some tx =>
      if tx.doomed then some (.error .failed, d.flag i)
      else
        match D.exec ⟨tx.start, d.seq, D.applyAll d.tables tx.writes, d.busy (some (i, t))⟩ q c with
        | none => none
        | some (.error f) => some (.error f, (d.setTx i t { tx with doomed := true }).flag i)
        | some (.ok e) =>
          if e.locks.any (d.busy (some (i, t))) then none
          else some (.ok e.ans, d.grant i t tx e)
  | .commit t, _ =>
    match d.txs i t with
    | none => some (.error .failed, d.flag i)
    | some tx =>
      if tx.doomed then some (.error .failed, (d.close i t).flag i)
      else some (.ok (), (d.record i (D.applyAll d.tables tx.writes)).close i t)
  | .rollback t, _ =>
    match d.txs i t with
    | none => some ((), d)
    | some _ => some ((), d.close i t)
  | .auto q, c =>
    if d.free = 0 then none
    else
      match D.exec ⟨d.clock, d.seq, d.tables, d.busy none⟩ q c with
      | none => none
      | some (.error f) => some (.error f, d.flag i)
      | some (.ok e) =>
        if e.locks.any (d.busy none) then none
        else some (.ok e.ans, { d.record i (D.applyAll d.tables e.writes) with seq := e.seq })
  | .env e, c => (D.env d.clock e c).map fun a => (a, d)

/-- The operation `o` of program `i` fails in the database. A failed statement dooms its
transaction; a failed commit ends it with nothing committed. -/
def fail (d : Db ι Slot T S W L) (i : ι) :
    (o : TxOp Slot Q E) → Option (o.Ans QA EA × Db ι Slot T S W L)
  | .begin _ => some (.error .failed, d.flag i)
  | .query t _ =>
    match d.txs i t with
    | none => some (.error .failed, d.flag i)
    | some tx => some (.error .failed, (d.setTx i t { tx with doomed := true }).flag i)
  | .commit t =>
    match d.txs i t with
    | none => some (.error .failed, d.flag i)
    | some _ => some (.error .failed, (d.close i t).flag i)
  | .rollback _ => none
  | .auto _ => some (.error .failed, d.flag i)
  | .env _ => none

/-- All transactions of a program end, as when the program dies. -/
def closeAll [Fintype Slot] (d : Db ι Slot T S W L) (i : ι) : Db ι Slot T S W L :=
  { d with
    owner := fun l => if (d.owner l).map Prod.fst = some i then none else d.owner l
    txs := Function.update d.txs i fun _ => none
    free := d.free + (Finset.univ.filter fun t => (d.txs i t).isSome).card
    failed := Function.update d.failed i true }

end Db

/-- The programs that use a database of type `Dbms`. -/
abbrev TxProg (Slot Q E : Type) (QA : Q → Type) (EA : E → Type) (α : Type) :=
  Prog (TxOp Slot Q E) (TxOp.Ans QA EA) α

/-- A system: the database and what is left of each program to run, `none` for one that died. -/
structure Sys (ι Slot T S W L Q E : Type) (QA : Q → Type) (EA : E → Type) (R : Type) where
  db : Db ι Slot T S W L
  progs : ι → Option (TxProg Slot Q E QA EA R)

/-- What happens next: a program's operation is performed with a choice or fails, a program dies,
or the clock advances. -/
inductive Action (ι C : Type) : Type where
  | exec (i : ι) (c : C)
  | fail (i : ι)
  | crash (i : ι)
  | tick (n : ℕ)

namespace Sys

variable [DecidableEq ι] [DecidableEq Slot] [Fintype Slot] [DecidableEq L]
variable (D : Dbms T S W L Q E C QA EA)

/-- Program `i` goes on as `p` in the database `d`. -/
def resume (s : Sys ι Slot T S W L Q E QA EA R) (i : ι) (d : Db ι Slot T S W L)
    (p : Option (TxProg Slot Q E QA EA R)) : Sys ι Slot T S W L Q E QA EA R :=
  ⟨d, Function.update s.progs i p⟩

/-- The state after an action, or nothing when the action is not enabled. -/
def step (s : Sys ι Slot T S W L Q E QA EA R) :
    Action ι C → Option (Sys ι Slot T S W L Q E QA EA R)
  | .exec i c =>
    match s.progs i with
    | some (.op o k) => (s.db.perform D i o c).map fun r => s.resume i r.2 (some (k r.1))
    | _ => none
  | .fail i =>
    match s.progs i with
    | some (.op o k) => (s.db.fail i o).map fun r => s.resume i r.2 (some (k r.1))
    | _ => none
  | .crash i =>
    match s.progs i with
    | some _ => some (s.resume i (s.db.closeAll i) none)
    | none => none
  | .tick n => some { s with db := { s.db with clock := s.db.clock + n } }

/-- The state after a list of actions, in order. -/
def run (s : Sys ι Slot T S W L Q E QA EA R) (as : List (Action ι C)) :
    Option (Sys ι Slot T S W L Q E QA EA R) :=
  as.foldlM (step D) s

/-- A run without actions ends in the state in which it has begun. -/
@[simp]
theorem run_nil (s : Sys ι Slot T S W L Q E QA EA R) : s.run D [] = some s := rfl

/-- The last action of a run is a step from the state that the others lead to. -/
theorem run_snoc (s : Sys ι Slot T S W L Q E QA EA R) (as : List (Action ι C)) (a : Action ι C) :
    s.run D (as ++ [a]) = (s.run D as).bind fun s' => s'.step D a := by
  simp [run, List.foldlM_append]

/-- A run of two parts goes through the state that the first one leads to. -/
theorem run_append (s : Sys ι Slot T S W L Q E QA EA R) (as bs : List (Action ι C)) :
    s.run D (as ++ bs) = (s.run D as).bind fun s' => s'.run D bs := by
  simp [run, List.foldlM_append]

/-- What holds at the start and is preserved by every step holds after every run. -/
theorem run_induction {P : Sys ι Slot T S W L Q E QA EA R → Prop}
    {s₀ : Sys ι Slot T S W L Q E QA EA R} (h0 : P s₀)
    (hstep : ∀ s a s', P s → s.step D a = some s' → P s') :
    ∀ {as s}, s₀.run D as = some s → P s := by
  intro as
  induction as using List.reverseRecOn with
  | nil =>
    intro s h
    simp only [run_nil, Option.some.injEq] at h
    exact h ▸ h0
  | append_singleton as a ih =>
    intro s h
    rw [run_snoc, Option.bind_eq_some_iff] at h
    obtain ⟨s', hs', hs⟩ := h
    exact hstep s' a s (ih hs') hs

end Sys

end Semantics

end RowLock
