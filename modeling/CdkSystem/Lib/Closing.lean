import CdkSystem.Lib.Traces

/-!
# Programs that close their transactions

The operations of a program and their answers say which of its transactions are open (`openAfter`).
A program closes (`Closes`) if it leaves no transaction open that was not open before. In a run, a
program that closes and has returned, or has died, has no open transaction (`Sys.Traced.closed`), so
when no program is left no lock is owned (`LockInv.free_of_closed`).
-/

namespace RowLock

variable {ι Slot T S W L Q E C R α β : Type} {QA : Q → Type} {EA : E → Type}
variable [DecidableEq Slot]

/-- Whether the transaction of a slot is open after the operations of a trace. -/
def openAfter : OpTrace Slot Q E QA EA → Slot → Bool
  | [], _ => false
  | ⟨.begin t, .ok _⟩ :: trace, t' => t' = t || openAfter trace t'
  | ⟨.begin _, .error _⟩ :: trace, t' => openAfter trace t'
  | ⟨.commit t, _⟩ :: trace, t' => t' ≠ t && openAfter trace t'
  | ⟨.rollback t, _⟩ :: trace, t' => t' ≠ t && openAfter trace t'
  | ⟨.query _ _, _⟩ :: trace, t' => openAfter trace t'
  | ⟨.auto _, _⟩ :: trace, t' => openAfter trace t'
  | ⟨.env _, _⟩ :: trace, t' => openAfter trace t'

/-- The transactions that are open after one trace are open after the other. -/
def OpenWithin (trace trace' : OpTrace Slot Q E QA EA) : Prop :=
  ∀ t, openAfter trace t = true → openAfter trace' t = true

/-- A program leaves no transaction open that was not open before. -/
def Closes (p : TxProg Slot Q E QA EA α) : Prop :=
  ∀ trace, Prog.Follows (fun _ _ => True) (fun trace' _ => OpenWithin trace' trace) trace p

/-- The slot of the transaction that an operation opens, if it opens one. -/
def TxOp.opens? : TxOp Slot Q E → Option Slot
  | .begin t => some t
  | _ => none

/-- Only `begin` opens a transaction; after any other operation the same ones are open. -/
theorem openWithin_cons {o : TxOp Slot Q E} {a : o.Ans QA EA} (trace : OpTrace Slot Q E QA EA)
    (h : o.opens? = none) : OpenWithin (⟨o, a⟩ :: trace) trace := by
  intro t ht
  cases o with
  | begin => cases h
  | commit t' | rollback t' =>
    simp only [openAfter, Bool.and_eq_true] at ht
    exact ht.2
  | query t' q | auto q | env e => exact ht

/-- A program that has returned at once has opened nothing that it would have to close. -/
theorem closes_ret (a : α) : Closes (.ret a : TxProg Slot Q E QA EA α) := fun _ _ h => h

/-- A program whose first operation opens nothing closes if the rest of it does. -/
theorem closes_op {o : TxOp Slot Q E} {k : o.Ans QA EA → TxProg Slot Q E QA EA α}
    (ho : o.opens? = none) (h : ∀ a, Closes (k a)) : Closes (.op o k) :=
  fun _ => ⟨trivial, fun a => (h a _).mono fun _ _ hw t ht => openWithin_cons _ ho t (hw t ht)⟩

/-- Two programs that close, one after the other, close. -/
theorem Closes.bind {p : TxProg Slot Q E QA EA α} {f : α → TxProg Slot Q E QA EA β} (h : Closes p)
    (hf : ∀ a, Closes (f a)) : Closes (p >>= f) :=
  fun trace => .bind ((h trace).mono fun trace' a hw =>
    (hf a trace').mono fun _ _ hw' t ht => hw t (hw' t ht))

/-- After a rollback, the transaction is not open any more. -/
theorem openWithin_rollback {t : Slot} {a : TxOp.Ans QA EA (.rollback t : TxOp Slot Q E)}
    {trace trace' : OpTrace Slot Q E QA EA}
    (h : OpenWithin trace' (⟨.begin t, .ok ()⟩ :: trace)) :
    OpenWithin (⟨.rollback t, a⟩ :: trace') trace := by
  intro t' ht'
  simp only [openAfter, Bool.and_eq_true, decide_eq_true_eq] at ht'
  have hopen := h t' ht'.2
  simp only [openAfter, Bool.or_eq_true, decide_eq_true_eq] at hopen
  exact hopen.resolve_left ht'.1

/-- A transaction with a program that closes in it, which is rolled back at the end. -/
theorem closes_transaction {t : Slot} {p : TxProg Slot Q E QA EA α}
    {k : Except Failure Unit → TxProg Slot Q E QA EA α} (h : Closes p)
    (hok : k (.ok ()) = p >>= fun r => .op (.rollback t) fun _ => .ret r)
    (herror : Closes (k (.error .failed))) : Closes (.op (.begin t) k) := by
  refine fun trace => ⟨trivial, fun a => ?_⟩
  match a with
  | .ok () =>
    rw [hok]
    refine .bind ((h _).mono fun trace' r hw => ⟨trivial, fun a => ?_⟩)
    exact openWithin_rollback hw
  | .error .failed => exact (herror _).mono fun _ _ hw => hw

section Runs

variable [DecidableEq ι] [DecidableEq L] {D : Dbms T S W L Q E C QA EA} {i : ι}
  {d d' : Db ι Slot T S W L} {o : TxOp Slot Q E} {a : o.Ans QA EA}

/-- After an operation, the open transactions of a program are among those of its trace. -/
theorem isOpen_of_opStep {trace : OpTrace Slot Q E QA EA} (hs : OpStep D i o d a d')
    (h : ∀ t, (d.txs i t).isSome = true → openAfter trace t = true) (t' : Slot)
    (ht' : (d'.txs i t').isSome = true) : openAfter (⟨o, a⟩ :: trace) t' = true := by
  cases hs.did with
  | @begin t hfree htx =>
    simp only [openAfter, Bool.or_eq_true, decide_eq_true_eq]
    by_cases hne : t' = t
    · exact Or.inl hne
    · simp only [Db.setTx, Function.update_self, Function.update_of_ne hne] at ht'
      exact Or.inr (h t' ht')
  | @query t q tx c e htx hd he hl =>
    -- A statement leaves the transaction of its slot open and touches no other one.
    refine h t' ?_
    by_cases hne : t' = t
    · rw [hne, htx]
      rfl
    · simpa only [Db.grant, Db.setTx, Function.update_self, Function.update_of_ne hne] using ht'
  | @queryFailed t q tx htx =>
    refine h t' ?_
    by_cases hne : t' = t
    · rw [hne, htx]
      rfl
    · simpa only [Db.flag, Db.setTx, Function.update_self, Function.update_of_ne hne] using ht'
  -- The end of a transaction closes its slot, whether it commits, fails or rolls back.
  | @commit t tx htx | @commitFailed t tx htx | @rollback t tx htx =>
    by_cases hne : t' = t
    · simp [Db.close, Db.flag, hne] at ht'
    · simp only [Db.close, Db.record, Db.flag, Function.update_self,
        Function.update_of_ne hne] at ht'
      simp [openAfter, hne, h t' ht']
  | @commitClosed t htx | @rollbackClosed t htx =>
    by_cases hne : t' = t
    · simp [Db.flag, hne, htx] at ht'
    · simp [openAfter, hne, h t' ht']
  | beginFailed | queryClosed | auto | autoFailed | env => exact h t' ht'

/-- The open transactions of the other programs stay as they are. -/
theorem txs_of_opStep (hs : OpStep D i o d a d') {j : ι} (hij : j ≠ i) : d'.txs j = d.txs j := by
  cases hs.did with
  | begin | query | queryFailed | commit | commitFailed | rollback =>
    simp [Db.setTx, Db.grant, Db.close, Db.record, Db.flag, hij]
  | beginFailed | queryClosed | commitClosed | rollbackClosed | auto | autoFailed | env => rfl

variable [Fintype Slot] {s₀ s : Sys ι Slot T S W L Q E QA EA R} {as : List (Action ι C)}
  {traces : Traces ι Slot Q E QA EA}

/-- In a run, the open transactions of a program are among those of its trace, and a program that
has died has none. -/
theorem Sys.Traced.isOpen (h : Sys.Traced D s₀ as s traces) (h0 : ∀ i t, s₀.db.txs i t = none)
    (i : ι) (t : Slot) (ht : (s.db.txs i t).isSome = true) :
    (∃ p, s.progs i = some p) ∧ openAfter (traces i) t = true := by
  induction h generalizing i t with
  | start =>
    rw [h0] at ht
    cases ht
  | @answer as s traces act j o k a d h hp ha ih =>
    by_cases hij : i = j
    · subst hij
      simp only [Sys.resume, Function.update_self]
      exact ⟨⟨_, rfl⟩, isOpen_of_opStep ha.opStep (fun t ht => (ih i t ht).2) t ht⟩
    · simp only [Sys.resume, Function.update_of_ne hij] at ht ⊢
      rw [txs_of_opStep ha.opStep hij] at ht
      exact ih i t ht
  | @crash as s traces j p h hp ih =>
    by_cases hij : i = j
    · subst hij
      simp [Sys.resume, Db.closeAll] at ht
    · simp only [Sys.resume, Db.closeAll, Function.update_of_ne hij] at ht ⊢
      exact ih i t ht
  | tick n h ih => exact ih i t ht

/-- A program that closes and has returned has no open transaction. -/
theorem Sys.closed_of_ret {r : R} (h : s₀.run D as = some s) (h0 : ∀ i t, s₀.db.txs i t = none)
    (hcloses : ∀ p, s₀.progs i = some p → Closes p) (hp : s.progs i = some (.ret r)) (t : Slot) :
    s.db.txs i t = none := by
  obtain ⟨traces, ht⟩ := Sys.exists_traced h
  have hfollows : ∀ p, s₀.progs i = some p → Prog.Follows (fun _ _ => True)
      (fun trace (_ : R) => OpenWithin trace []) [] p := fun p hp => hcloses p hp []
  have hpost : OpenWithin (traces i) [] := ht.follows hfollows _ hp
  by_contra hne
  have hopen := hpost t (ht.isOpen h0 i t (Option.isSome_iff_ne_none.mpr hne)).2
  cases hopen

/-- A program that has died has no open transaction. -/
theorem Sys.closed_of_died (h : s₀.run D as = some s) (h0 : ∀ i t, s₀.db.txs i t = none)
    (hp : s.progs i = none) (t : Slot) : s.db.txs i t = none := by
  obtain ⟨traces, ht⟩ := Sys.exists_traced h
  by_contra hne
  obtain ⟨p, hp'⟩ := (ht.isOpen h0 i t (Option.isSome_iff_ne_none.mpr hne)).1
  rw [hp] at hp'
  cases hp'

end Runs

end RowLock
