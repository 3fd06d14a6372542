import CdkSystem.Lib.Frame

/-!
# Proof outlines for interleaved transactions

A proof outline (`Outline`) attaches an assertion to every point of every program, as a function of
what is left of the program to run and of the database. Besides, it names an invariant of the
database and an order along which the database moves.

`Safe` says that a program can be run on from a state with its assertions true at each point, when
between any two of its operations the other programs do anything that leaves this program's
transactions alone, moves the database up the order and keeps the invariant (`Rely`). It is defined
by recursion over the program, and there is one rule for each operation (`Safe.begin`,
`Safe.query`, `Safe.commit`, `Safe.rollback`, `Safe.auto`, `Safe.env`), which says what the
program knows afterwards: the locks and writes of its transaction exactly (`InTx`), and that no row
under its locks has changed.

`Holds.step` is the soundness of the method: if all programs of a system are safe, then after any
step they are safe again, provided that the step moves the database up the order and keeps the
invariant. These two facts about single steps are what a user proves from the assertions, and from
them `Holds` follows in every state of every run.
-/

set_option linter.unusedSectionVars false

namespace RowLock

variable {ι Slot T S W L Q E C R : Type} {QA : Q → Type} {EA : E → Type}
variable [DecidableEq ι] [DecidableEq Slot] [DecidableEq L]

/-- The committed transactions of one program, in the order in which it has committed them. -/
def Db.ownLog (d : Db ι Slot T S W L) (i : ι) : List (Commit ι T) :=
  d.log.filter fun c => c.caller = i

/-- The open transaction of a slot: its start, its writes, and exactly the locks that it owns. -/
structure InTx (d : Db ι Slot T S W L) (i : ι) (t : Slot) (start : Time) (writes : List W)
    (locks : List L) : Prop where
  tx : d.txs i t = some ⟨start, writes, false⟩
  locks : ∀ l, d.owner l = some (i, t) ↔ l ∈ locks

/-- Nothing has been committed for the program, and none of its operations has failed. -/
structure Quiet (i : ι) (d d' : Db ι Slot T S W L) : Prop where
  log : d'.ownLog i = d.ownLog i
  failed : d'.failed i = d.failed i

/-- Nothing is committed and nothing fails twice in a row. -/
theorem Quiet.trans {i : ι} {d d' d'' : Db ι Slot T S W L} (h : Quiet i d d')
    (h' : Quiet i d' d'') : Quiet i d d'' :=
  ⟨h'.log.trans h.log, h'.failed.trans h.failed⟩

/-- Nothing has been committed for the program, and one of its operations has failed. -/
structure Failing (i : ι) (d d' : Db ι Slot T S W L) : Prop where
  log : d'.ownLog i = d.ownLog i
  failed : d'.failed i = true

/-- A failure after a time in which only others were active is still a failure. -/
theorem Failing.of_quiet {i : ι} {d d' d'' : Db ι Slot T S W L} (h : Quiet i d d')
    (h' : Failing i d' d'') : Failing i d d'' :=
  ⟨h'.log.trans h.log, h'.failed⟩

/-- Assertions for all points of all programs, with an invariant of the database and an order along
which it moves. -/
structure Outline (ι Slot T S W L Q E : Type) (QA : Q → Type) (EA : E → Type) (R : Type) where
  asserts : ι → TxProg Slot Q E QA EA R → Db ι Slot T S W L → Prop
  inv : Db ι Slot T S W L → Prop
  le : Db ι Slot T S W L → Db ι Slot T S W L → Prop

namespace Outline

variable (O : Outline ι Slot T S W L Q E QA EA R)
variable (D : Dbms T S W L Q E C QA EA) (same : L → T → T → Prop)

/-- The order is a preorder, and the invariant includes the lock invariant. -/
structure Lawful : Prop where
  refl : ∀ d, O.le d d
  trans : ∀ {a b c}, O.le a b → O.le b c → O.le a c
  lock : ∀ {d}, O.inv d → LockInv D same d

/-- What program `i` can rely on when the others run. -/
structure Rely (i : ι) (d d' : Db ι Slot T S W L) : Prop where
  frame : ∀ t, SlotFrame same d d' (i, t)
  own : Quiet i d d'
  le : O.le d d'
  inv : O.inv d'

/-- What program `i` knows after an operation on the slot `t` of its own, and after the others have
run: its other transactions are where they were. -/
structure After (i : ι) (t : Option Slot) (d d' : Db ι Slot T S W L) : Prop where
  frame : ∀ t', t ≠ some t' → SlotFrame same d d' (i, t')
  le : O.le d d'
  inv : O.inv d'

/-- Program `i` can be run on from `d`: its assertion holds now, and after each way in which its
operation can end and anything that the others then do, it can be run on again. -/
def Safe (i : ι) : TxProg Slot Q E QA EA R → Db ι Slot T S W L → Prop
  | .ret r, d => O.asserts i (.ret r) d
  | .op o k, d => O.asserts i (.op o k) d ∧ ∀ a d' d'', OpStep D i o d a d' → O.le d d' →
      O.inv d' → O.Rely same i d' d'' → Safe i (k a) d''

/-- The assertion of a safe program holds. -/
theorem Safe.asserts {i : ι} {p : TxProg Slot Q E QA EA R} {d : Db ι Slot T S W L}
    (h : O.Safe D same i p d) : O.asserts i p d := by
  cases p with
  | ret r => exact h
  | op o k => exact h.1

variable {O D same}

/-- The others leave the transaction of a slot as it is. -/
theorem Rely.inTx {i : ι} {t : Slot} {d d' : Db ι Slot T S W L} {start : Time} {ws : List W}
    {ls : List L} (h : O.Rely same i d d') (htx : InTx d i t start ws ls) :
    InTx d' i t start ws ls :=
  ⟨(h.frame t).tx.trans htx.tx, fun l => ((h.frame t).owner l).trans (htx.locks l)⟩

/-- Operations on other slots leave the transaction of a slot as it is. -/
theorem After.inTx {i : ι} {t : Option Slot} {t' : Slot} {d d' : Db ι Slot T S W L} {start : Time}
    {ws : List W} {ls : List L} (h : O.After same i t d d') (ht : t ≠ some t')
    (htx : InTx d i t' start ws ls) : InTx d' i t' start ws ls :=
  ⟨(h.frame t' ht).tx.trans htx.tx, fun l => ((h.frame t' ht).owner l).trans (htx.locks l)⟩

/-- Operations on other slots leave the rows that a slot has locked as they are. -/
theorem After.rows {i : ι} {t : Option Slot} {t' : Slot} {d d' : Db ι Slot T S W L} {start : Time}
    {ws : List W} {ls : List L} (h : O.After same i t d d') (ht : t ≠ some t')
    (htx : InTx d i t' start ws ls) : ∀ l ∈ ls, same l d.tables d'.tables :=
  fun l hl => (h.frame t' ht).rows l ((htx.locks l).mpr hl)

/-- The other transactions of a program stay where they were through several operations. -/
theorem After.trans (hD : D.Lawful same) (hO : O.Lawful D same) {i : ι} {t : Option Slot}
    {d d' d'' : Db ι Slot T S W L} (h : O.After same i t d d') (h' : O.After same i t d' d'') :
    O.After same i t d d'' :=
  ⟨fun t' ht => SlotFrame.trans hD (h.frame t' ht) (h'.frame t' ht), hO.trans h.le h'.le, h'.inv⟩

/-- What is known with all slots in place is known for any slot. -/
theorem After.weaken {i : ι} {t : Option Slot} {d d' : Db ι Slot T S W L}
    (h : O.After same i none d d') : O.After same i t d d' :=
  ⟨fun t' _ => h.frame t' (by simp), h.le, h.inv⟩

/-- Nothing happening leaves all transactions where they are. -/
theorem After.refl (hD : D.Lawful same) (hO : O.Lawful D same) {i : ι} {t : Option Slot}
    {d : Db ι Slot T S W L} (hinv : O.inv d) : O.After same i t d d :=
  ⟨fun t' _ => SlotFrame.refl hD d (i, t'), hO.refl d, hinv⟩

section Rules

variable (hD : D.Lawful same) (hO : O.Lawful D same)
include hD hO

/-- After an operation and what the others then do, a transaction of another slot is where it
was. -/
theorem After.of_opStep {i : ι} {o : TxOp Slot Q E} {d d' d'' : Db ι Slot T S W L}
    {a : o.Ans QA EA} (hinv : O.inv d) (hs : OpStep D i o d a d') (hle : O.le d d')
    (hr : O.Rely same i d' d'') : O.After same i o.slot? d d'' := by
  refine ⟨fun t' ht => ?_, hO.trans hle hr.le, hr.inv⟩
  refine SlotFrame.trans hD (OpStep.slotFrame hD (hO.lock hinv) hs fun t' ht' he => ?_)
    (hr.frame t')
  exact ht (by rw [ht', (Prod.mk.inj he).2])

/-- The rule for opening a transaction, which may fail for want of a connection. -/
theorem Safe.begin {i : ι} {t : Slot} {k} {d : Db ι Slot T S W L}
    (hat : O.asserts i (.op (.begin t) k) d) (hinv : O.inv d)
    (hfail : ∀ d', O.After same i none d d' → Failing i d d' →
      O.Safe D same i (k (Except.error .failed)) d')
    (hok : ∀ d', O.After same i (some t) d d' → InTx d' i t d.clock [] [] → Quiet i d d' →
      O.Safe D same i (k (Except.ok ())) d') :
    O.Safe D same i (.op (.begin t) k) d := by
  refine ⟨hat, fun a d' d'' hs hle hinv' hr => ?_⟩
  have hafter := After.of_opStep hD hO hinv hs hle hr
  cases hs.did with
  | begin hfree htx =>
    refine hok d'' hafter (hr.inTx ⟨by simp [Db.setTx], fun l => ?_⟩) ⟨hr.own.log, hr.own.failed⟩
    simp only [Db.setTx, List.not_mem_nil, iff_false]
    intro ho
    simpa [htx] using (hO.lock hinv).isOpen l i t ho
  | beginFailed =>
    refine hfail d'' ⟨fun t' _ => ?_, hO.trans hle hr.le, hr.inv⟩ ⟨hr.own.log, ?_⟩
    · exact SlotFrame.trans hD ((SlotFrame.refl hD d (i, t')).flag i) (hr.frame t')
    · rw [hr.own.failed]
      simp [Db.flag]

/-- The rule for a statement of an open transaction: it has its answer, or it dooms the transaction.
-/
theorem Safe.query {i : ι} {t : Slot} {q : Q} {k} {d : Db ι Slot T S W L} {start : Time}
    {ws : List W} {ls : List L} (hat : O.asserts i (.op (.query t q) k) d) (hinv : O.inv d)
    (htx : InTx d i t start ws ls)
    (hfail : ∀ d', O.After same i (some t) d d' → Failing i d d' →
      O.Safe D same i (k (Except.error .failed)) d')
    (hok : ∀ (c : C) (e : Effect S W L (QA q)) d',
      D.exec ⟨start, d.seq, D.applyAll d.tables ws, d.busy (some (i, t))⟩ q c = some (.ok e) →
      O.After same i (some t) d d' → InTx d' i t start (ws ++ e.writes) (ls ++ e.locks) →
      (∀ l ∈ ls ++ e.locks, same l d.tables d'.tables) → Quiet i d d' →
      O.Safe D same i (k (Except.ok e.ans)) d') :
    O.Safe D same i (.op (.query t q) k) d := by
  refine ⟨hat, fun a d' d'' hs hle hinv' hr => ?_⟩
  have hafter := After.of_opStep hD hO hinv hs hle hr
  cases hs.did with
  -- The statement has its answer: its locks and writes are added to those of the transaction.
  | @query t q tx c e htx' hd he hl =>
    rw [htx.tx, Option.some.injEq] at htx'
    subst htx'
    have hin : InTx (d.grant i t ⟨start, ws, false⟩ e) i t start (ws ++ e.writes)
        (ls ++ e.locks) := by
      refine ⟨by simp [Db.grant, Db.setTx], fun l => ?_⟩
      simp only [Db.grant, List.mem_append]
      split_ifs with hm
      · simp [hm]
      · simp [hm, htx.locks]
    refine hok c e d'' he hafter (hr.inTx hin) (fun l hm => ?_) ⟨hr.own.log, hr.own.failed⟩
    exact (hr.frame t).rows l ((hin.locks l).mpr hm)
  -- A statement that fails changes nothing but the mark of its transaction.
  | queryFailed htx' => exact hfail d'' hafter ⟨hr.own.log, by rw [hr.own.failed]; simp [Db.flag]⟩
  -- The transaction is open, so this case does not occur.
  | queryClosed htx' =>
    rw [htx.tx] at htx'
    cases htx'

/-- The commit of an open transaction: either it fails and changes nothing, or the transaction's
writes are applied to the tables committed by then. -/
theorem Safe.commit {i : ι} {t : Slot} {k} {d : Db ι Slot T S W L} {start : Time}
    {ws : List W} {ls : List L} (hat : O.asserts i (.op (.commit t) k) d) (hinv : O.inv d)
    (htx : InTx d i t start ws ls)
    (hfail : ∀ d', O.After same i (some t) d d' → d'.txs i t = none → Failing i d d' →
      O.Safe D same i (k (Except.error .failed)) d')
    (hok : ∀ d' d'', d'.tables = D.applyAll d.tables ws → O.le d' d'' → O.inv d' →
      O.After same i (some t) d d'' → d''.txs i t = none →
      d''.ownLog i = d.ownLog i ++ [⟨i, d.clock, d.tables, D.applyAll d.tables ws⟩] →
      d''.failed i = d.failed i → O.Safe D same i (k (Except.ok ())) d'') :
    O.Safe D same i (.op (.commit t) k) d := by
  refine ⟨hat, fun a d' d'' hs hle hinv' hr => ?_⟩
  have hafter := After.of_opStep hD hO hinv hs hle hr
  cases hs.did with
  | @commit t tx htx' hd =>
    rw [htx.tx, Option.some.injEq] at htx'
    subst htx'
    refine hok _ d'' rfl hr.le hinv' hafter ?_ ?_ hr.own.failed
    · -- What others do in between is only known to leave this program's slots and log alone.
      rw [(hr.frame t).tx]
      simp [Db.close]
    · rw [hr.own.log]
      simp [Db.ownLog, Db.close, Db.record]
  | commitFailed htx' =>
    refine hfail d'' hafter ?_ ⟨hr.own.log, by rw [hr.own.failed]; simp [Db.flag]⟩
    rw [(hr.frame t).tx]
    simp [Db.close, Db.flag]
  | commitClosed htx' =>
    rw [htx.tx] at htx'
    cases htx'

/-- Rolling back: afterwards the slot has no transaction. -/
theorem Safe.rollback {i : ι} {t : Slot} {k} {d : Db ι Slot T S W L}
    (hat : O.asserts i (.op (.rollback t) k) d) (hinv : O.inv d)
    (h : ∀ d', O.After same i (some t) d d' → d'.txs i t = none → Quiet i d d' →
      O.Safe D same i (k ()) d') :
    O.Safe D same i (.op (.rollback t) k) d := by
  refine ⟨hat, fun a d' d'' hs hle hinv' hr => ?_⟩
  have hafter := After.of_opStep hD hO hinv hs hle hr
  cases hs.did with
  | rollback htx =>
    refine h d'' hafter ?_ ⟨hr.own.log, hr.own.failed⟩
    rw [(hr.frame t).tx]
    simp [Db.close]
  | rollbackClosed htx => exact h d'' hafter ((hr.frame t).tx.trans htx) hr.own

/-- A statement that is a transaction of its own. -/
theorem Safe.auto {i : ι} {q : Q} {k} {d : Db ι Slot T S W L}
    (hat : O.asserts i (.op (.auto q) k) d) (hinv : O.inv d)
    (hfail : ∀ d', O.After same i none d d' → Failing i d d' →
      O.Safe D same i (k (Except.error .failed)) d')
    (hok : ∀ (c : C) (e : Effect S W L (QA q)) d' d'',
      D.exec ⟨d.clock, d.seq, d.tables, d.busy none⟩ q c = some (.ok e) →
      d'.tables = D.applyAll d.tables e.writes → O.le d' d'' → O.inv d' →
      O.After same i none d d'' →
      d''.ownLog i = d.ownLog i ++ [⟨i, d.clock, d.tables, D.applyAll d.tables e.writes⟩] →
      d''.failed i = d.failed i → O.Safe D same i (k (Except.ok e.ans)) d'') :
    O.Safe D same i (.op (.auto q) k) d := by
  refine ⟨hat, fun a d' d'' hs hle hinv' hr => ?_⟩
  have hafter := After.of_opStep hD hO hinv hs hle hr
  cases hs.did with
  | @auto q c e he hl =>
    refine hok c e _ d'' he rfl hr.le hinv' hafter ?_ hr.own.failed
    rw [hr.own.log]
    simp [Db.ownLog, Db.record]
  | autoFailed => exact hfail d'' hafter ⟨hr.own.log, by rw [hr.own.failed]; simp [Db.flag]⟩

/-- The rule for a question to the environment, which may have any answer. -/
theorem Safe.env {i : ι} {e : E} {k} {d : Db ι Slot T S W L}
    (hat : O.asserts i (.op (.env e) k) d) (hinv : O.inv d)
    (h : ∀ (c : C) a d', D.env d.clock e c = some a → O.After same i none d d' → Quiet i d d' →
      O.Safe D same i (k a) d') :
    O.Safe D same i (.op (.env e) k) d := by
  refine ⟨hat, fun a d' d'' hs hle hinv' hr => ?_⟩
  have hafter := After.of_opStep hD hO hinv hs hle hr
  cases hs.did with
  | env c he => exact h c a d'' he hafter hr.own

end Rules

end Outline

/-! ## Soundness -/

variable [Fintype Slot]

namespace Outline

variable (O : Outline ι Slot T S W L Q E QA EA R)
variable (D : Dbms T S W L Q E C QA EA) (same : L → T → T → Prop)

/-- The invariant holds and every program is safe, whatever the others do next. -/
structure Holds (s : Sys ι Slot T S W L Q E QA EA R) : Prop where
  inv : O.inv s.db
  safe : ∀ i p, s.progs i = some p → ∀ d, O.Rely same i s.db d → O.Safe D same i p d

variable {O D same}

/-- Nothing happening is something that a program can rely on. -/
theorem Rely.refl (hD : D.Lawful same) (hO : O.Lawful D same) {d : Db ι Slot T S W L}
    (hinv : O.inv d) (i : ι) : O.Rely same i d d :=
  ⟨fun t => SlotFrame.refl hD d (i, t), ⟨rfl, rfl⟩, hO.refl d, hinv⟩

/-- What a program relies on twice it can rely on. -/
theorem Rely.trans (hD : D.Lawful same) (hO : O.Lawful D same) {i : ι}
    {d d' d'' : Db ι Slot T S W L} (h : O.Rely same i d d') (h' : O.Rely same i d' d'') :
    O.Rely same i d d'' :=
  ⟨fun t => SlotFrame.trans hD (h.frame t) (h'.frame t), h.own.trans h'.own,
    hO.trans h.le h'.le, h'.inv⟩

/-- In a state where the outline holds, the assertion of every program holds. -/
theorem Holds.asserts (hD : D.Lawful same) (hO : O.Lawful D same)
    {s : Sys ι Slot T S W L Q E QA EA R} (h : O.Holds D same s) {i : ι}
    {p : TxProg Slot Q E QA EA R} (hp : s.progs i = some p) : O.asserts i p s.db :=
  (h.safe i p hp s.db (Rely.refl hD hO h.inv i)).asserts

end Outline

namespace Outline

variable {O : Outline ι Slot T S W L Q E QA EA R}
variable {D : Dbms T S W L Q E C QA EA} {same : L → T → T → Prop}

/-- Another program's operation is quiet for program `i`. -/
theorem quiet_opStep {i j : ι} (hij : i ≠ j) {o : TxOp Slot Q E} {d d' : Db ι Slot T S W L}
    {a : o.Ans QA EA} (hs : OpStep D j o d a d') : Quiet i d d' := by
  cases hs.did with
  | commit htx hd => exact ⟨by simp [Db.ownLog, Db.close, Db.record, hij.symm], rfl⟩
  | auto c he hl => exact ⟨by simp [Db.ownLog, Db.record, hij.symm], rfl⟩
  | beginFailed | queryFailed htx | queryClosed htx | commitFailed htx | commitClosed htx
  | autoFailed =>
    exact ⟨rfl, by simp [Db.flag, Db.setTx, Db.close, hij]⟩
  | begin hfree htx | query c htx hd he hl | rollback htx | rollbackClosed htx | env c he =>
    exact ⟨rfl, rfl⟩

/-- Soundness: a step that moves the database up the order and keeps the invariant leaves all
programs safe. -/
theorem Holds.step (hD : D.Lawful same) (hO : O.Lawful D same)
    {s s' : Sys ι Slot T S W L Q E QA EA R} {a : Action ι C} (h : O.Holds D same s)
    (hs : s.step D a = some s') (hle : O.le s.db s'.db) (hinv : O.inv s'.db) :
    O.Holds D same s' := by
  refine ⟨hinv, fun i p hp d hr => ?_⟩
  rcases Sys.step_cases hs with ⟨j, o, k, x, d', hj, ha, rfl⟩ | ⟨j, q, -, hj, rfl⟩ | ⟨n, -, rfl⟩
  · have hop := ha.opStep
    by_cases hij : i = j
    · -- The program's own step: its safety unfolds once.
      subst hij
      simp only [Sys.resume, Function.update_self, Option.some.injEq] at hp
      subst hp
      exact (h.safe i _ hj s.db (Rely.refl hD hO h.inv i)).2 x d' d hop hle hinv hr
    · -- Another program's step is something that this one relies on.
      simp only [Sys.resume, Function.update_of_ne hij] at hp
      refine h.safe i p hp d (Rely.trans hD hO ⟨fun t => ?_, quiet_opStep hij hop, hle, hinv⟩ hr)
      refine OpStep.slotFrame hD (hO.lock h.inv) hop fun t' _ he => hij (Prod.mk.inj he).1
  · by_cases hij : i = j
    · subst hij
      simp [Sys.resume] at hp
    · simp only [Sys.resume, Function.update_of_ne hij] at hp
      exact h.safe i p hp d (Rely.trans hD hO
        ⟨fun t => SlotFrame.closeAll hD s.db j hij, ⟨rfl, by simp [Db.closeAll, hij]⟩, hle,
          hinv⟩ hr)
  · have htick : O.Rely same i s.db { s.db with clock := s.db.clock + n } :=
      ⟨fun t => ⟨rfl, fun l => Iff.rfl, fun l _ => hD.refl l _⟩, ⟨rfl, rfl⟩, hle, hinv⟩
    exact h.safe i p hp d (Rely.trans hD hO htick hr)

end Outline

end RowLock
