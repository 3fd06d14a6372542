import CdkSystem.Lib.RowLock

/-!
# What the other programs leave alone

A row whose lock a transaction owns is not changed by anyone else. The database has to keep one
rule for this (`Dbms.Lawful`): a statement writes only rows whose locks it takes. Then every open
transaction has written only rows that it has locked (`LockInv`), and each operation leaves alone
the locks, the writes and the locked rows of all other transactions (`SlotFrame`,
`OpStep.slotFrame`), whether it belongs to another program or to another slot of the same one.
-/

set_option linter.unusedSectionVars false

namespace RowLock

variable {ι Slot T S W L Q E C R : Type} {QA : Q → Type} {EA : E → Type}
variable [DecidableEq ι] [DecidableEq Slot] [DecidableEq L]

/-- `same l` says that two states of the tables have the same row under the lock `l`. A database is
lawful when a statement writes only rows whose locks it takes. -/
structure Dbms.Lawful (D : Dbms T S W L Q E C QA EA) (same : L → T → T → Prop) : Prop where
  refl : ∀ l a, same l a a
  trans : ∀ {l a b c}, same l a b → same l b c → same l a c
  exec : ∀ {ctx q c e}, D.exec ctx q c = some (.ok e) →
    ∀ w ∈ e.writes, ∀ l ∉ e.locks, ∀ a, same l a (D.apply a w)

/-- Program `i` performs the operation `o`, or it fails, with the answer `a`. -/
def OpStep (D : Dbms T S W L Q E C QA EA) (i : ι) (o : TxOp Slot Q E) (d : Db ι Slot T S W L)
    (a : o.Ans QA EA) (d' : Db ι Slot T S W L) : Prop :=
  (∃ c, d.perform D i o c = some (a, d')) ∨ d.fail i o = some (a, d')

/-- The slot that an operation is on. -/
def TxOp.slot? : TxOp Slot Q E → Option Slot
  | .begin t => some t
  | .query t _ => some t
  | .commit t => some t
  | .rollback t => some t
  | .auto _ => none
  | .env _ => none

/-- The transaction `w` is where it was: its writes, its locks and the rows under them. -/
structure SlotFrame (same : L → T → T → Prop) (d d' : Db ι Slot T S W L) (w : ι × Slot) :
    Prop where
  tx : d'.txs w.1 w.2 = d.txs w.1 w.2
  owner : ∀ l, d'.owner l = some w ↔ d.owner l = some w
  rows : ∀ l, d.owner l = some w → same l d.tables d'.tables

/-- Locks belong to open transactions, and an open transaction has written only rows under locks
that it owns. -/
structure LockInv (D : Dbms T S W L Q E C QA EA) (same : L → T → T → Prop)
    (d : Db ι Slot T S W L) : Prop where
  isOpen : ∀ l i t, d.owner l = some (i, t) → (d.txs i t).isSome
  writes : ∀ i t tx, d.txs i t = some tx → ∀ w ∈ tx.writes, ∀ l, d.owner l ≠ some (i, t) →
    ∀ a, same l a (D.apply a w)

/-- The ways in which an operation ends: what it answers and the state it leaves. -/
inductive Did (D : Dbms T S W L Q E C QA EA) (i : ι) (d : Db ι Slot T S W L) :
    (o : TxOp Slot Q E) → o.Ans QA EA → Db ι Slot T S W L → Prop where
  | begin {t} (hfree : d.free ≠ 0) (htx : d.txs i t = none) :
      Did D i d (.begin t) (Except.ok ())
        { d.setTx i t ⟨d.clock, [], false⟩ with free := d.free - 1 }
  | beginFailed {t} : Did D i d (.begin t) (Except.error .failed) (d.flag i)
  | query {t q tx} (c : C) {e : Effect S W L (QA q)} (htx : d.txs i t = some tx)
      (hdoomed : tx.doomed = false)
      (hexec : D.exec ⟨tx.start, d.seq, D.applyAll d.tables tx.writes, d.busy (some (i, t))⟩ q c =
        some (.ok e))
      (hlocks : ∀ l ∈ e.locks, d.busy (some (i, t)) l = false) :
      Did D i d (.query t q) (Except.ok e.ans) (d.grant i t tx e)
  | queryFailed {t q tx} (htx : d.txs i t = some tx) :
      Did D i d (.query t q) (Except.error .failed)
        ((d.setTx i t { tx with doomed := true }).flag i)
  | queryClosed {t q} (htx : d.txs i t = none) :
      Did D i d (.query t q) (Except.error .failed) (d.flag i)
  | commit {t tx} (htx : d.txs i t = some tx) (hdoomed : tx.doomed = false) :
      Did D i d (.commit t) (Except.ok ())
        ((d.record i (D.applyAll d.tables tx.writes)).close i t)
  | commitFailed {t tx} (htx : d.txs i t = some tx) :
      Did D i d (.commit t) (Except.error .failed) ((d.close i t).flag i)
  | commitClosed {t} (htx : d.txs i t = none) :
      Did D i d (.commit t) (Except.error .failed) (d.flag i)
  | rollback {t tx} (htx : d.txs i t = some tx) : Did D i d (.rollback t) () (d.close i t)
  | rollbackClosed {t} (htx : d.txs i t = none) : Did D i d (.rollback t) () d
  | auto {q} (c : C) {e : Effect S W L (QA q)}
      (hexec : D.exec ⟨d.clock, d.seq, d.tables, d.busy none⟩ q c = some (.ok e))
      (hlocks : ∀ l ∈ e.locks, d.busy none l = false) :
      Did D i d (.auto q) (Except.ok e.ans)
        { d.record i (D.applyAll d.tables e.writes) with seq := e.seq }
  | autoFailed {q} : Did D i d (.auto q) (Except.error .failed) (d.flag i)
  | env {e a} (c : C) (henv : D.env d.clock e c = some a) : Did D i d (.env e) a d

/-- A transaction that is already doomed is not changed by another failure. -/
theorem Db.setTx_doomed {d : Db ι Slot T S W L} {i : ι} {t : Slot} {tx : Tx W}
    (htx : d.txs i t = some tx) (hd : tx.doomed = true) :
    d.setTx i t { tx with doomed := true } = d := by
  have he : ({ tx with doomed := true } : Tx W) = tx := by
    cases tx
    simp only at hd
    rw [hd]
  simp [Db.setTx, he, ← htx]

/-- Every operation that is performed or fails ends in one of these ways. -/
theorem OpStep.did {D : Dbms T S W L Q E C QA EA} {i : ι} {d d' : Db ι Slot T S W L}
    {o : TxOp Slot Q E} {a : o.Ans QA EA} (h : OpStep D i o d a d') : Did D i d o a d' := by
  -- The operation was performed; what it did depends on whether its transaction was open and
  -- sound.
  rcases h with ⟨c, h⟩ | h
  · cases o with
    | begin t =>
      simp only [Db.perform] at h
      split_ifs at h with hb
      cases h
      rw [not_or, Bool.not_eq_true, Option.isSome_eq_false_iff, Option.isNone_iff_eq_none] at hb
      exact .begin hb.1 hb.2
    | query t q =>
      cases htx : d.txs i t with
      | none =>
        simp only [Db.perform, htx] at h
        cases h
        exact .queryClosed htx
      | some tx =>
        simp only [Db.perform, htx] at h
        split_ifs at h with hd
        · -- In a doomed transaction every statement fails.
          cases h
          have := Did.queryFailed (D := D) (q := q) htx
          rwa [Db.setTx_doomed htx hd] at this
        · split at h
          · cases h
          · cases h
            exact .queryFailed htx
          · rename_i e he
            split_ifs at h with hl
            cases h
            refine .query c htx (by simpa using hd) he ?_
            simpa using hl
    | commit t =>
      cases htx : d.txs i t with
      | none =>
        simp only [Db.perform, htx] at h
        cases h
        exact .commitClosed htx
      | some tx =>
        simp only [Db.perform, htx] at h
        split_ifs at h with hd
        · cases h
          exact .commitFailed htx
        · cases h
          exact .commit htx (by simpa using hd)
    | rollback t =>
      cases htx : d.txs i t with
      | none =>
        simp only [Db.perform, htx] at h
        cases h
        exact .rollbackClosed htx
      | some tx =>
        simp only [Db.perform, htx] at h
        cases h
        exact .rollback htx
    | auto q =>
      simp only [Db.perform] at h
      split_ifs at h with hfree
      split at h
      · cases h
      · cases h
        exact .autoFailed
      · rename_i e he
        split_ifs at h with hl
        cases h
        refine .auto c he ?_
        simpa using hl
    | env e =>
      cases hx : D.env d.clock e c with
      | none =>
        simp only [Db.perform, hx] at h
        cases h
      | some x =>
        simp only [Db.perform, hx] at h
        cases h
        exact .env c hx
  · -- The operation failed, which only marks what was open.
    cases o with
    | begin t =>
      cases h
      exact .beginFailed
    | query t q =>
      cases htx : d.txs i t with
      | none =>
        simp only [Db.fail, htx] at h
        cases h
        exact .queryClosed htx
      | some tx =>
        simp only [Db.fail, htx] at h
        cases h
        exact .queryFailed htx
    | commit t =>
      cases htx : d.txs i t with
      | none =>
        simp only [Db.fail, htx] at h
        cases h
        exact .commitClosed htx
      | some tx =>
        simp only [Db.fail, htx] at h
        cases h
        exact .commitFailed htx
    | rollback t => cases h
    | auto q =>
      cases h
      exact .autoFailed
    | env e => cases h

section Frame

variable {D : Dbms T S W L Q E C QA EA} {same : L → T → T → Prop}

/-- A transaction stays where it is when nothing happens. -/
theorem SlotFrame.refl (hD : D.Lawful same) (d : Db ι Slot T S W L) (w : ι × Slot) :
    SlotFrame same d d w :=
  ⟨rfl, fun _ => Iff.rfl, fun l _ => hD.refl l _⟩

/-- A transaction that stays where it is twice stays where it is. -/
theorem SlotFrame.trans (hD : D.Lawful same) {d d' d'' : Db ι Slot T S W L} {w : ι × Slot}
    (h : SlotFrame same d d' w) (h' : SlotFrame same d' d'' w) : SlotFrame same d d'' w :=
  ⟨h'.tx.trans h.tx, fun l => (h'.owner l).trans (h.owner l),
    fun l hl => hD.trans (h.rows l hl) (h'.rows l ((h.owner l).mpr hl))⟩

/-- A lock that is not busy for a transaction is free or its own. -/
theorem Db.not_busy {d : Db ι Slot T S W L} {who : Option (ι × Slot)} {l : L}
    (h : d.busy who l = false) : d.owner l = none ∨ d.owner l = who := by
  unfold Db.busy at h
  cases ho : d.owner l with
  | none => exact Or.inl rfl
  | some w =>
    refine Or.inr ?_
    simpa [ho] using h

/-- Applying writes that leave a row alone leaves it alone. -/
theorem Dbms.Lawful.applyAll (hD : D.Lawful same) {l : L} {ws : List W}
    (h : ∀ w ∈ ws, ∀ a, same l a (D.apply a w)) (a : T) : same l a (D.applyAll a ws) := by
  induction ws generalizing a with
  | nil => exact hD.refl l a
  | cons w ws ih =>
    rw [Dbms.applyAll_cons]
    exact hD.trans (h w (by simp) a) (ih (fun w' hw' => h w' (by simp [hw'])) _)

/-- Replacing one transaction's record leaves every other transaction where it was. -/
theorem SlotFrame.setTx (hD : D.Lawful same) (d : Db ι Slot T S W L) (i : ι) (t : Slot) (tx : Tx W)
    {w : ι × Slot} (hw : w ≠ (i, t)) : SlotFrame same d (d.setTx i t tx) w := by
  refine ⟨?_, fun l => Iff.rfl, fun l _ => hD.refl l _⟩
  obtain ⟨j, t'⟩ := w
  by_cases hj : j = i
  · subst hj
    have ht : t' ≠ t := fun h => hw (by rw [h])
    simp [Db.setTx, ht]
  · simp [Db.setTx, hj]

/-- Ending one transaction leaves every other transaction where it was. -/
theorem SlotFrame.close (hD : D.Lawful same) (d : Db ι Slot T S W L) (i : ι) (t : Slot)
    {w : ι × Slot} (hw : w ≠ (i, t)) : SlotFrame same d (d.close i t) w := by
  refine ⟨?_, fun l => ?_, fun l _ => hD.refl l _⟩
  · obtain ⟨j, t'⟩ := w
    by_cases hj : j = i
    · subst hj
      have ht : t' ≠ t := fun h => hw (by rw [h])
      simp [Db.close, ht]
    · simp [Db.close, hj]
  · simp only [Db.close]
    split_ifs with h
    · rw [h]
      simpa using fun h' => hw h'.symm
    · rfl

/-- New committed tables in which a transaction's locked rows are the same leave it where it
was. -/
theorem SlotFrame.record (d : Db ι Slot T S W L) (i : ι) (tables : T) {w : ι × Slot}
    (h : ∀ l, d.owner l = some w → same l d.tables tables) :
    SlotFrame same d (d.record i tables) w :=
  ⟨rfl, fun _ => Iff.rfl, h⟩

/-- The statement of one transaction leaves every other transaction where it was: it takes only
locks that the other does not own. -/
theorem SlotFrame.grant (hD : D.Lawful same) (d : Db ι Slot T S W L) (i : ι) (t : Slot) (tx : Tx W)
    {A : Type} {e : Effect S W L A} (he : ∀ l ∈ e.locks, d.busy (some (i, t)) l = false)
    {w : ι × Slot} (hw : w ≠ (i, t)) : SlotFrame same d (d.grant i t tx e) w := by
  refine ⟨(SlotFrame.setTx hD d i t _ hw).tx, fun l => ?_, fun l _ => hD.refl l _⟩
  simp only [Db.grant]
  split_ifs with hl
  · have hne : some (i, t) ≠ some w := by simpa using fun h' => hw h'.symm
    rcases Db.not_busy (he l hl) with ho | ho
    · rw [ho]
      simpa using hne
    · rw [ho]
  · rfl

/-- A flag leaves every transaction where it was. -/
theorem SlotFrame.flag {d d' : Db ι Slot T S W L} {w : ι × Slot} (h : SlotFrame same d d' w)
    (i : ι) : SlotFrame same d (d'.flag i) w :=
  ⟨h.tx, h.owner, h.rows⟩

/-- The lock invariant of a state that differs only in one transaction's record. -/
theorem LockInv.setTx {d : Db ι Slot T S W L} (h : LockInv D same d) (i : ι) (t : Slot) (tx : Tx W)
    (hw : ∀ w ∈ tx.writes, ∀ l, d.owner l ≠ some (i, t) → ∀ a, same l a (D.apply a w)) :
    LockInv D same (d.setTx i t tx) := by
  constructor
  · intro l j t' ho
    by_cases hj : j = i
    · subst hj
      by_cases ht : t' = t
      · subst ht
        simp [Db.setTx]
      · simpa [Db.setTx, ht] using h.isOpen l j t' ho
    · simpa [Db.setTx, hj] using h.isOpen l j t' ho
  · intro j t' tx' htx'
    by_cases hj : j = i
    · subst hj
      by_cases ht : t' = t
      · subst ht
        simp only [Db.setTx, Function.update_self, Option.some.injEq] at htx'
        subst htx'
        exact hw
      · exact h.writes j t' tx' (by simpa [Db.setTx, ht] using htx')
    · exact h.writes j t' tx' (by simpa [Db.setTx, hj] using htx')

/-- Ending a transaction keeps the lock invariant. -/
theorem LockInv.close {d : Db ι Slot T S W L} (h : LockInv D same d) (i : ι) (t : Slot) :
    LockInv D same (d.close i t) := by
  constructor
  · intro l j t' ho
    have hne : (j, t') ≠ (i, t) := by
      rintro he
      simp only [Db.close, he] at ho
      split_ifs at ho with hh
      exact hh ho
    -- A lock that is owned afterwards was owned before, and not by the transaction that was
    -- closed.
    have ho' : d.owner l = some (j, t') := by
      simp only [Db.close] at ho
      split_ifs at ho
      exact ho
    have := h.isOpen l j t' ho'
    by_cases hj : j = i
    · subst hj
      have ht : t' ≠ t := fun h => hne (by rw [h])
      simpa [Db.close, ht] using this
    · simpa [Db.close, hj] using this
  · -- The other transactions are as before, and they own no fewer locks.
    intro j t' tx htx w hw l ho a
    have hne : (j, t') ≠ (i, t) := by
      rintro he
      obtain ⟨rfl, rfl⟩ := Prod.mk.inj he
      simp [Db.close] at htx
    have htx' : d.txs j t' = some tx := by
      by_cases hj : j = i
      · subst hj
        have ht : t' ≠ t := fun h => hne (by rw [h])
        simpa [Db.close, ht] using htx
      · simpa [Db.close, hj] using htx
    refine h.writes j t' tx htx' w hw l (fun ho' => ho ?_) a
    simp only [Db.close, ho']
    rw [if_neg]
    simpa using hne

/-- A statement that takes the locks of the rows it writes keeps the lock invariant. -/
theorem LockInv.grant {d : Db ι Slot T S W L} (h : LockInv D same d) (i : ι) (t : Slot) {tx : Tx W}
    (htx : d.txs i t = some tx) {A : Type} {e : Effect S W L A}
    (he : ∀ l ∈ e.locks, d.busy (some (i, t)) l = false)
    (hw : ∀ w ∈ e.writes, ∀ l ∉ e.locks, ∀ a, same l a (D.apply a w)) :
    LockInv D same (d.grant i t tx e) := by
  -- A lock is owned as before or was taken by this statement.
  have howner : ∀ l j t', (d.grant i t tx e).owner l = some (j, t') →
      d.owner l = some (j, t') ∨ (l ∈ e.locks ∧ (j, t') = (i, t)) := by
    intro l j t' ho
    simp only [Db.grant] at ho
    split_ifs at ho with hl
    · exact Or.inr ⟨hl, (Option.some.inj ho).symm⟩
    · exact Or.inl ho
  -- No transaction loses a lock, since the statement takes only locks that are free or its own.
  have hback : ∀ l j t', (d.grant i t tx e).owner l ≠ some (j, t') → d.owner l ≠ some (j, t') := by
    intro l j t' ho ho'
    apply ho
    simp only [Db.grant]
    split_ifs with hl
    · rcases Db.not_busy (he l hl) with h1 | h1
      · rw [h1] at ho'
        cases ho'
      · rw [← h1, ho']
    · exact ho'
  constructor
  · intro l j t' ho
    rcases howner l j t' ho with ho' | ⟨-, hjt⟩
    · have hs := h.isOpen l j t' ho'
      by_cases hj : j = i
      · subst hj
        by_cases ht : t' = t
        · subst ht
          simp [Db.grant, Db.setTx]
        · simpa [Db.grant, Db.setTx, ht] using hs
      · simpa [Db.grant, Db.setTx, hj] using hs
    · obtain ⟨rfl, rfl⟩ := Prod.mk.inj hjt
      simp [Db.grant, Db.setTx]
  · intro j t' tx' htx' w hwm l ho a
    -- Only the transaction of the statement has new writes, and they are under its locks.
    by_cases hjt : (j, t') = (i, t)
    · obtain ⟨rfl, rfl⟩ := Prod.mk.inj hjt
      simp only [Db.grant, Db.setTx, Function.update_self, Option.some.injEq] at htx'
      subst htx'
      rcases List.mem_append.mp hwm with hw' | hw'
      · exact h.writes j t' tx htx w hw' l (hback l j t' ho) a
      · refine hw w hw' l (fun hl => ho ?_) a
        simp [Db.grant, hl]
    · refine h.writes j t' tx' ?_ w hwm l (hback l j t' ho) a
      by_cases hj : j = i
      · subst hj
        have ht : t' ≠ t := fun h => hjt (by rw [h])
        simpa [Db.grant, Db.setTx, ht] using htx'
      · simpa [Db.grant, Db.setTx, hj] using htx'

/-- The lock invariant speaks only of the locks and the open transactions. -/
theorem LockInv.congr {d d' : Db ι Slot T S W L} (h : LockInv D same d)
    (ho : d'.owner = d.owner) (ht : d'.txs = d.txs) : LockInv D same d' := by
  constructor
  · rw [ho, ht]
    exact h.isOpen
  · rw [ho, ht]
    exact h.writes

/-- Every operation keeps the lock invariant, whether it succeeds or fails. -/
theorem LockInv.opStep (hD : D.Lawful same) {d d' : Db ι Slot T S W L} (h : LockInv D same d)
    {i : ι} {o : TxOp Slot Q E} {a : o.Ans QA EA} (hs : OpStep D i o d a d') :
    LockInv D same d' := by
  cases hs.did with
  | begin hfree htx =>
    refine LockInv.congr (LockInv.setTx h i _ ⟨d.clock, [], false⟩ ?_) rfl rfl
    simp
  | beginFailed => exact LockInv.congr h rfl rfl
  | query c htx hd he hl => exact h.grant i _ htx hl (hD.exec he)
  | @queryFailed t q tx htx => 
    exact (h.setTx i t { tx with doomed := true } (h.writes i t tx htx)).congr rfl rfl
  | queryClosed htx => exact LockInv.congr h rfl rfl
  | @commit t tx htx hd =>
    have hrecord : LockInv D same (d.record i (D.applyAll d.tables tx.writes)) :=
      LockInv.congr h rfl rfl
    exact hrecord.close i t
  | commitFailed htx => exact (h.close i _).congr rfl rfl
  | commitClosed htx => exact LockInv.congr h rfl rfl
  | rollback htx => exact h.close i _
  | rollbackClosed htx => exact h
  | auto c he hl => exact LockInv.congr h rfl rfl
  | autoFailed => exact LockInv.congr h rfl rfl
  | env c he => exact h

/-- An operation leaves alone every transaction that is not the one of its own slot. -/
theorem OpStep.slotFrame (hD : D.Lawful same) {d d' : Db ι Slot T S W L} (h : LockInv D same d)
    {i : ι} {o : TxOp Slot Q E} {a : o.Ans QA EA} (hs : OpStep D i o d a d') {w : ι × Slot}
    (hw : ∀ t, o.slot? = some t → w ≠ (i, t)) : SlotFrame same d d' w := by
  cases hs.did with
  | begin hfree htx =>
    have hf := SlotFrame.setTx hD d i _ ⟨d.clock, [], false⟩ (hw _ rfl)
    exact ⟨hf.tx, hf.owner, hf.rows⟩
  | beginFailed => exact (SlotFrame.refl hD d w).flag i
  | query c htx hd he hl => exact SlotFrame.grant hD d i _ _ hl (hw _ rfl)
  | queryFailed htx => exact (SlotFrame.setTx hD d i _ _ (hw _ rfl)).flag i
  | queryClosed htx => exact (SlotFrame.refl hD d w).flag i
  | commit htx hd =>
    -- The committed writes are under locks of the slot's own transaction, so not under `w`'s.
    refine SlotFrame.trans hD (SlotFrame.record d i _ fun l hl => ?_)
      (SlotFrame.close hD _ i _ (hw _ rfl))
    refine hD.applyAll (fun w' hw' => h.writes i _ _ htx w' hw' l ?_) d.tables
    rw [hl]
    exact fun he => hw _ rfl (Option.some.inj he)
  | commitFailed htx => exact (SlotFrame.close hD d i _ (hw _ rfl)).flag i
  | commitClosed htx => exact (SlotFrame.refl hD d w).flag i
  | rollback htx => exact SlotFrame.close hD d i _ (hw _ rfl)
  | rollbackClosed htx => exact SlotFrame.refl hD d w
  | auto c he hl =>
    -- The statement's locks were free, so none of them is `w`'s.
    have hf : SlotFrame same d (d.record i (D.applyAll d.tables _)) w :=
      SlotFrame.record d i _ fun l hown => hD.applyAll (fun w' hw' => hD.exec he w' hw' l
        fun hmem => by
          rcases Db.not_busy (hl l hmem) with ho | ho <;> rw [ho] at hown <;> cases hown) d.tables
    exact ⟨hf.tx, hf.owner, hf.rows⟩
  | autoFailed => exact (SlotFrame.refl hD d w).flag i
  | env c he => exact SlotFrame.refl hD d w

variable [Fintype Slot]

/-- A program that dies leaves the transactions of all other programs alone. -/
theorem SlotFrame.closeAll (hD : D.Lawful same) (d : Db ι Slot T S W L) (i : ι) {w : ι × Slot}
    (hw : w.1 ≠ i) : SlotFrame same d (d.closeAll i) w := by
  refine ⟨?_, fun l => ?_, fun l _ => hD.refl l _⟩
  · simp [Db.closeAll, hw]
  · simp only [Db.closeAll]
    split_ifs with h
    · rw [Option.map_eq_some_iff] at h
      obtain ⟨w', hw', he⟩ := h
      rw [hw']
      simp only [Option.some.injEq, false_iff]
      rintro rfl
      exact hw he
    · rfl

/-- A program that dies keeps the lock invariant. -/
theorem LockInv.closeAll {d : Db ι Slot T S W L} (h : LockInv D same d) (i : ι) :
    LockInv D same (d.closeAll i) := by
  -- Exactly the locks of the program that has died are free afterwards.
  have howner : ∀ l j t, (d.closeAll i).owner l = some (j, t) ↔ d.owner l = some (j, t) ∧
      j ≠ i := by
    intro l j t
    simp only [Db.closeAll]
    split_ifs with hl
    · rw [Option.map_eq_some_iff] at hl
      obtain ⟨⟨j', t'⟩, hw', rfl⟩ := hl
      rw [hw']
      simp only [Option.some.injEq, Prod.mk.injEq, ne_eq, false_iff, not_and, not_not]
      rintro ⟨rfl, -⟩
      rfl
    · constructor
      · intro ho
        refine ⟨ho, ?_⟩
        rintro rfl
        exact hl (by rw [ho]; rfl)
      · exact And.left
  constructor
  · intro l j t ho
    obtain ⟨ho', hj⟩ := (howner l j t).mp ho
    simpa [Db.closeAll, hj] using h.isOpen l j t ho'
  · intro j t tx htx w hw l ho a
    have hj : j ≠ i := by
      rintro rfl
      simp [Db.closeAll] at htx
    refine h.writes j t tx (by simpa [Db.closeAll, hj] using htx) w hw l (fun ho' => ho ?_) a
    exact (howner l j t).mpr ⟨ho', hj⟩

end Frame

/-- What a statement outside a transaction does when it succeeds. -/
theorem Db.perform_auto_ok {D : Dbms T S W L Q E C QA EA} {d d' : Db ι Slot T S W L} {i : ι} {q : Q}
    {c : C} {a : QA q} (h : d.perform D i (.auto q) c = some (Except.ok a, d')) :
    ∃ e, D.exec ⟨d.clock, d.seq, d.tables, d.busy none⟩ q c = some (.ok e) ∧ e.ans = a ∧
      d' = { d.record i (D.applyAll d.tables e.writes) with seq := e.seq } := by
  simp only [Db.perform] at h
  split_ifs at h
  split at h
  · cases h
  · cases h
  · rename_i e he
    split_ifs at h
    cases h
    exact ⟨e, he, rfl, rfl⟩

/-- An action answers an operation of a program in a state. -/
inductive Sys.Answers (D : Dbms T S W L Q E C QA EA) (s : Sys ι Slot T S W L Q E QA EA R)
    (i : ι) (o : TxOp Slot Q E) (a : o.Ans QA EA) (d : Db ι Slot T S W L) : Action ι C → Prop
  | exec {c} (h : s.db.perform D i o c = some (a, d)) : Sys.Answers D s i o a d (.exec i c)
  | fail (h : s.db.fail i o = some (a, d)) : Sys.Answers D s i o a d (.fail i)

/-- What answers an operation performs it, or it fails. -/
theorem Sys.Answers.opStep {D : Dbms T S W L Q E C QA EA} {s : Sys ι Slot T S W L Q E QA EA R}
    {i : ι} {o : TxOp Slot Q E} {a : o.Ans QA EA} {d : Db ι Slot T S W L} {act : Action ι C}
    (h : s.Answers D i o a d act) : OpStep D i o s.db a d := by
  cases h with
  | exec h => exact Or.inl ⟨_, h⟩
  | fail h => exact Or.inr h

/-- What a step does: it answers an operation of a program, ends a program, or advances the clock.
-/
theorem Sys.step_cases [Fintype Slot] {D : Dbms T S W L Q E C QA EA}
    {s s' : Sys ι Slot T S W L Q E QA EA R}
    {act : Action ι C} (h : s.step D act = some s') :
    (∃ i o k a d, s.progs i = some (.op o k) ∧ s.Answers D i o a d act ∧
      s' = s.resume i d (some (k a))) ∨
    (∃ i p, act = .crash i ∧ s.progs i = some p ∧ s' = s.resume i (s.db.closeAll i) none) ∨
    ∃ n : ℕ, act = .tick n ∧ s' = { s with db := { s.db with clock := s.db.clock + n } } := by
  cases act with
  | exec i c =>
    simp only [Sys.step] at h
    split at h
    · rename_i o k hp
      obtain ⟨⟨a, d⟩, hperform, rfl⟩ := Option.map_eq_some_iff.mp h
      exact Or.inl ⟨i, o, k, a, d, hp, .exec hperform, rfl⟩
    · cases h
  | fail i =>
    simp only [Sys.step] at h
    split at h
    · rename_i o k hp
      obtain ⟨⟨a, d⟩, hfail, rfl⟩ := Option.map_eq_some_iff.mp h
      exact Or.inl ⟨i, o, k, a, d, hp, .fail hfail, rfl⟩
    · cases h
  | crash i =>
    simp only [Sys.step] at h
    split at h
    · rename_i p hp
      exact Or.inr (Or.inl ⟨i, p, rfl, hp, (Option.some.inj h).symm⟩)
    · cases h
  | tick n => exact Or.inr (Or.inr ⟨n, rfl, (Option.some.inj h).symm⟩)

end RowLock
