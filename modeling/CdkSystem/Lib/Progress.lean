import CdkSystem.Lib.Closing
import Mathlib.Logic.Hydra

/-!
# Programs that take their locks in order

Every lock has a rank. A program is orderly (`Orderly`) if each lock that it asks for ranks above
those that it owns, and if it asks for a connection, or for a lock of rank zero, only while it owns
no lock of a higher rank and at most so many connections. When all programs are orderly, and the
pool has more connections than they hold together while they wait for connections and locks of rank
zero, then in every state of every run some program can go on (`Sys.Ordered.not_stuck`).
-/

namespace RowLock

variable {ι Slot T S W L Q E C R α β : Type} {QA : Q → Type} {EA : E → Type}

/-- The locks of the open transactions of a program. -/
abbrev Holding (Slot L : Type) := Slot → Option (List L)

namespace Holding

/-- No transaction is open, and so no locks are held. -/
def nothing : Holding Slot L := fun _ => none

/-- All locks that are held in any slot have ranks below `r`. -/
def Below (rank : L → ℕ) (held : Holding Slot L) (r : ℕ) : Prop :=
  ∀ t ls, held t = some ls → ∀ l ∈ ls, rank l < r

/-- The number of open transactions, each of which has one connection of the pool. -/
def connections [Fintype Slot] (held : Holding Slot L) : ℕ :=
  (Finset.univ.filter fun t => (held t).isSome).card

/-- Where nothing is held, no connection of the pool is in use. -/
theorem nothing_connections [Fintype Slot] : (nothing : Holding Slot L).connections = 0 := by
  simp [connections, nothing]

end Holding

variable [DecidableEq Slot] [Fintype Slot]

/-- A program that holds some locks asks for further ones in the order of their ranks, and waits for
connections and for locks of rank zero with at most `n` connections of its own. -/
def Orderly (D : Dbms T S W L Q E C QA EA) (rank : L → ℕ) (n : ℕ)
    (post : α → Holding Slot L → Prop) : Holding Slot L → TxProg Slot Q E QA EA α → Prop
  | held, .ret a => post a held
  | held, .op (.begin t) k =>
    (held t = none ∧ held.Below rank 1 ∧ held.connections ≤ n) ∧
      Orderly D rank n post (Function.update held t (some [])) (k (.ok ())) ∧
      Orderly D rank n post held (k (.error .failed))
  | held, .op (.query t q) k =>
    (∃ ls, held t = some ls ∧ ∀ ctx c e, D.exec ctx q c = some (.ok e) →
      (∀ l ∈ e.locks, l ∈ ls ∨
        held.Below rank (rank l) ∧ (rank l = 0 → held.connections ≤ n)) ∧
      Orderly D rank n post (Function.update held t (some (ls ++ e.locks))) (k (.ok e.ans))) ∧
    Orderly D rank n post held (k (.error .failed))
  | held, .op (.commit t) k =>
    Orderly D rank n post (Function.update held t none) (k (.ok ())) ∧
      Orderly D rank n post (Function.update held t none) (k (.error .failed))
  | held, .op (.rollback t) k => Orderly D rank n post (Function.update held t none) (k ())
  | _, .op (.auto _) _ => False
  | held, .op (.env e) k =>
    (∀ now, ∃ c, (D.env now e c).isSome = true) ∧ ∀ a, Orderly D rank n post held (k a)

section Rules

variable {D : Dbms T S W L Q E C QA EA} {rank : L → ℕ} {n : ℕ}
  {post post' : α → Holding Slot L → Prop} {held : Holding Slot L}

/-- What holds at the end may be weakened. -/
theorem Orderly.mono {p : TxProg Slot Q E QA EA α} (h : Orderly D rank n post held p)
    (hpost : ∀ a held', post a held' → post' a held') : Orderly D rank n post' held p := by
  induction p generalizing held with
  | ret a => exact hpost a held h
  | op o k ih =>
    cases o with
    | begin t => exact ⟨h.1, ih _ h.2.1, ih _ h.2.2⟩
    | query t q =>
      obtain ⟨⟨ls, hls, hexec⟩, herror⟩ := h
      exact ⟨⟨ls, hls, fun ctx c e he => ⟨(hexec ctx c e he).1, ih _ (hexec ctx c e he).2⟩⟩,
        ih _ herror⟩
    | commit t => exact ⟨ih _ h.1, ih _ h.2⟩
    | rollback t => exact ih _ h
    | auto q => exact h
    | env e => exact ⟨h.1, fun a => ih a (h.2 a)⟩

/-- One program after another: the second one begins with what the first one has left. -/
theorem Orderly.bind {post : β → Holding Slot L → Prop} {p : TxProg Slot Q E QA EA α}
    {f : α → TxProg Slot Q E QA EA β}
    (h : Orderly D rank n (fun a held' => Orderly D rank n post held' (f a)) held p) :
    Orderly D rank n post held (p >>= f) := by
  induction p generalizing held with
  | ret a => exact h
  | op o k ih =>
    cases o with
    | begin t => exact ⟨h.1, ih _ h.2.1, ih _ h.2.2⟩
    | query t q =>
      obtain ⟨⟨ls, hls, hexec⟩, herror⟩ := h
      exact ⟨⟨ls, hls, fun ctx c e he => ⟨(hexec ctx c e he).1, ih _ (hexec ctx c e he).2⟩⟩,
        ih _ herror⟩
    | commit t => exact ⟨ih _ h.1, ih _ h.2⟩
    | rollback t => exact ih _ h
    | auto q => exact h
    | env e => exact ⟨h.1, fun a => ih a (h.2 a)⟩

end Rules

section Steps

variable [DecidableEq ι] [DecidableEq L] {D : Dbms T S W L Q E C QA EA} {rank : L → ℕ} {n : ℕ}
  {post : α → Holding Slot L → Prop} {held : Holding Slot L} {d d' : Db ι Slot T S W L} {i j : ι}
  {t : Slot} {o : TxOp Slot Q E} {a : o.Ans QA EA}

/-- A program holds exactly these locks in its open transactions. -/
structure Db.Holds (d : Db ι Slot T S W L) (i : ι) (held : Holding Slot L) : Prop where
  isOpen : ∀ t, (d.txs i t).isSome = (held t).isSome
  owner : ∀ t l, d.owner l = some (i, t) ↔ ∃ ls, held t = some ls ∧ l ∈ ls

omit [Fintype Slot] [DecidableEq ι] [DecidableEq Slot] [DecidableEq L] in
/-- What a program holds depends on its transactions and their locks only. -/
theorem Db.Holds.congr (h : d.Holds i held) (htxs : ∀ t, (d'.txs i t).isSome = (d.txs i t).isSome)
    (howner : ∀ t l, d'.owner l = some (i, t) ↔ d.owner l = some (i, t)) : d'.Holds i held :=
  ⟨fun t => (htxs t).trans (h.isOpen t), fun t l => (howner t l).trans (h.owner t l)⟩

omit [Fintype Slot] [DecidableEq ι] [DecidableEq L] in
/-- A transaction that is closed is not held. -/
theorem Db.Holds.update_none (h : d.Holds i held) (htx : d.txs i t = none) :
    Function.update held t none = held := by
  have hopen := h.isOpen t
  rw [htx, Option.isSome_none] at hopen
  have hnone : held t = none :=
    Option.isNone_iff_eq_none.mp (Option.isSome_eq_false_iff.mp hopen.symm)
  rw [← hnone, Function.update_eq_self]

omit [Fintype Slot] [DecidableEq L] in
/-- The locks of a transaction that has ended are free. -/
theorem Db.owner_close {l : L} {w : ι × Slot} :
    (d.close i t).owner l = some w ↔ d.owner l = some w ∧ w ≠ (i, t) := by
  simp only [Db.close]
  split_ifs with h
  · rw [h]
    simp only [Option.some.injEq, false_iff, not_and, not_not]
    exact fun hw => hw.symm
  · constructor
    · intro hw
      refine ⟨hw, fun he => h ?_⟩
      rw [hw, he]
    · exact And.left

omit [Fintype Slot] [DecidableEq L] in
/-- A program whose transaction has ended holds the locks of the others. -/
theorem Db.Holds.close (h : d.Holds i held) (t : Slot) :
    (d.close i t).Holds i (Function.update held t none) := by
  constructor
  · intro t'
    by_cases ht : t' = t
    · simp [Db.close, ht]
    · simp [Db.close, ht, h.isOpen t']
  · intro t' l
    rw [Db.owner_close, h.owner]
    by_cases ht : t' = t
    · simp [ht]
    · simp [ht]

omit [Fintype Slot] in
/-- The locks that a statement takes are its transaction's. -/
theorem Db.owner_grant {tx : Tx W} {A : Type} {e : Effect S W L A} {l : L} {w : ι × Slot}
    (he : ∀ l ∈ e.locks, d.busy (some (i, t)) l = false) :
    (d.grant i t tx e).owner l = some w ↔ d.owner l = some w ∨ l ∈ e.locks ∧ w = (i, t) := by
  simp only [Db.grant]
  split_ifs with hl
  · simp only [Option.some.injEq, hl, true_and]
    constructor
    · exact fun hw => Or.inr hw.symm
    · rintro (hw | hw)
      · rcases Db.not_busy (he l hl) with ho | ho
        · rw [ho] at hw
          cases hw
        · exact Option.some.inj (ho.symm.trans hw)
      · exact hw.symm
  · simp [hl]

/-- An orderly program stays orderly with each of its operations. -/
theorem Orderly.opStep {k : o.Ans QA EA → TxProg Slot Q E QA EA α}
    (hp : Orderly D rank n post held (.op o k)) (h : d.Holds i held) (hs : OpStep D i o d a d') :
    ∃ held', d'.Holds i held' ∧ Orderly D rank n post held' (k a) := by
  cases hs.did with
  -- An operation on a slot changes what is held in that slot only.
  | @begin t hfree htx =>
    refine ⟨_, ?_, hp.2.1⟩
    constructor
    · intro t'
      by_cases ht : t' = t
      · simp [Db.setTx, ht]
      · simp [Db.setTx, ht, h.isOpen t']
    · intro t' l
      change d.owner l = some (i, t') ↔ _
      rw [h.owner]
      by_cases ht : t' = t
      · rw [ht, hp.1.1]
        simp
      · simp [ht]
  | beginFailed => exact ⟨held, h.congr (fun _ => rfl) fun _ _ => Iff.rfl, hp.2.2⟩
  -- The statement's locks are those that its rule names, so they are what is held in addition.
  | @query t q tx c e htx hdoomed hexec hlocks =>
    obtain ⟨⟨ls, hls, hrule⟩, -⟩ := hp
    refine ⟨_, ?_, (hrule _ c e hexec).2⟩
    constructor
    · intro t'
      by_cases ht : t' = t
      · simp [Db.grant, Db.setTx, ht]
      · simp [Db.grant, Db.setTx, ht, h.isOpen t']
    · intro t' l
      rw [Db.owner_grant hlocks, h.owner]
      by_cases ht : t' = t
      · rw [ht, hls]
        simp
      · simp [ht]
  | @queryFailed t q tx htx =>
    refine ⟨held, h.congr (fun t' => ?_) fun _ _ => Iff.rfl, hp.2⟩
    by_cases ht : t' = t
    · simp [Db.flag, Db.setTx, ht, htx]
    · simp [Db.flag, Db.setTx, ht]
  | queryClosed htx => exact ⟨held, h.congr (fun _ => rfl) fun _ _ => Iff.rfl, hp.2⟩
  -- A commit and a rollback release the locks of the slot, whether they take effect or not.
  | @commit t tx htx hdoomed =>
    refine ⟨_, ?_, hp.1⟩
    have hrecord : (d.record i (D.applyAll d.tables tx.writes)).Holds i held :=
      h.congr (fun _ => rfl) fun _ _ => Iff.rfl
    exact hrecord.close t
  | @commitFailed t tx htx =>
    exact ⟨_, (h.close t).congr (fun _ => rfl) (fun _ _ => Iff.rfl), hp.2⟩
  | @commitClosed t htx =>
    have hsame := hp.2
    rw [h.update_none htx] at hsame
    exact ⟨held, h.congr (fun _ => rfl) (fun _ _ => Iff.rfl), hsame⟩
  | @rollback t tx htx => exact ⟨_, h.close t, hp⟩
  | @rollbackClosed t htx =>
    have hsame : Orderly D rank n post (Function.update held t none) (k ()) := hp
    rw [h.update_none htx] at hsame
    exact ⟨held, h, hsame⟩
  -- An orderly program makes no statement outside a transaction.
  | auto | autoFailed => exact hp.elim
  | @env e a c henv => exact ⟨held, h, hp.2 a⟩

omit [DecidableEq L] in
/-- A program that dies holds nothing afterwards: its transactions are rolled back. -/
theorem Db.holds_closeAll (d : Db ι Slot T S W L) (i : ι) : (d.closeAll i).Holds i .nothing := by
  constructor
  · intro t
    simp [Db.closeAll, Holding.nothing]
  · intro t l
    simp only [Db.closeAll, Holding.nothing]
    split_ifs with h
    · simp
    · simp only [false_and, exists_false, iff_false]
      intro ho
      exact h (by rw [ho, Option.map_some])

omit [Fintype Slot] in
/-- An operation of a program changes nothing that another one holds. -/
theorem Db.Holds.of_opStep (h : d.Holds j held) (hij : j ≠ i) (hs : OpStep D i o d a d') :
    d'.Holds j held := by
  refine h.congr (fun t' => ?_) fun t' l => ?_
  · rw [txs_of_opStep hs hij]
  · have hne : ∀ t, (j, t') ≠ (i, t) := fun t he => hij (congrArg Prod.fst he)
    cases hs.did with
    | query c htx hdoomed hexec hlocks =>
      rw [Db.owner_grant hlocks]
      simp [hne]
    | commit | commitFailed | rollback => exact Db.owner_close.trans (and_iff_left (hne _))
    | begin | beginFailed | queryFailed | queryClosed | commitClosed | rollbackClosed | auto
    | autoFailed | env => exact Iff.rfl

omit [DecidableEq L] in
/-- The death of a program changes nothing that another one holds. -/
theorem Db.Holds.of_closeAll (h : d.Holds j held) (hij : j ≠ i) : (d.closeAll i).Holds j held := by
  refine h.congr (fun t => ?_) fun t l => ?_
  · simp [Db.closeAll, hij]
  · simp only [Db.closeAll]
    split_ifs with ho
    · simp only [false_iff]
      intro hw
      rw [hw, Option.map_some, Option.some.injEq] at ho
      exact hij ho
    · exact Iff.rfl

/-! ## The pool -/

/-- The number of open transactions of a program. -/
def Db.opened (d : Db ι Slot T S W L) (i : ι) : ℕ :=
  (Finset.univ.filter fun t => (d.txs i t).isSome).card

/-- All connections of the pool: the free ones and one for each open transaction. -/
def Db.pool [Fintype ι] (d : Db ι Slot T S W L) : ℕ := d.free + ∑ i, d.opened i

omit [DecidableEq Slot] [DecidableEq ι] [DecidableEq L] in
/-- A program has a transaction open for each that it holds. -/
theorem Db.Holds.opened (h : d.Holds i held) : d.opened i = held.connections := by
  unfold Db.opened Holding.connections
  simp only [h.isOpen]

omit [DecidableEq L] in
/-- A transaction that ends was one of the open ones. -/
theorem Db.opened_close {tx : Tx W} (htx : d.txs i t = some tx) :
    d.opened i = (d.close i t).opened i + 1 := by
  have hmem : t ∈ Finset.univ.filter fun t => (d.txs i t).isSome := by simp [htx]
  have herase : (Finset.univ.filter fun t' => ((d.close i t).txs i t').isSome) =
      (Finset.univ.filter fun t => (d.txs i t).isSome).erase t := by
    ext t'
    by_cases ht : t' = t
    · simp [Db.close, ht]
    · simp [Db.close, ht]
  unfold Db.opened
  rw [herase, Finset.card_erase_add_one hmem]

omit [DecidableEq L] in
/-- A transaction that begins is one more open one. -/
theorem Db.opened_setTx_none (tx : Tx W) (htx : d.txs i t = none) :
    (d.setTx i t tx).opened i = d.opened i + 1 := by
  have hmem : t ∉ Finset.univ.filter fun t => (d.txs i t).isSome := by simp [htx]
  have hinsert : (Finset.univ.filter fun t' => ((d.setTx i t tx).txs i t').isSome) =
      insert t (Finset.univ.filter fun t => (d.txs i t).isSome) := by
    ext t'
    by_cases ht : t' = t
    · simp [Db.setTx, ht]
    · simp [Db.setTx, ht]
  unfold Db.opened
  rw [hinsert, Finset.card_insert_of_notMem hmem]

omit [DecidableEq L] in
/-- A statement leaves its transaction open, so as many of them are open as before. -/
theorem Db.opened_setTx_some {tx : Tx W} (tx' : Tx W) (htx : d.txs i t = some tx) :
    (d.setTx i t tx').opened i = d.opened i := by
  unfold Db.opened
  congr 2
  ext t'
  by_cases ht : t' = t
  · simp [Db.setTx, ht, htx]
  · simp [Db.setTx, ht]

/-- An operation gives a program a connection of the pool or gives one back. -/
theorem Db.free_add_opened (hs : OpStep D i o d a d') :
    d'.free + d'.opened i = d.free + d.opened i := by
  cases hs.did with
  | @begin t hfree htx =>
    have h := Db.opened_setTx_none ⟨d.clock, [], false⟩ htx
    change d.free - 1 + (d.setTx i t ⟨d.clock, [], false⟩).opened i = _
    omega
  | @query t q tx c e htx hdoomed hexec hlocks =>
    have h := Db.opened_setTx_some { tx with writes := tx.writes ++ e.writes } htx
    exact congrArg (d.free + ·) h
  | @queryFailed t q tx htx =>
    have h := Db.opened_setTx_some { tx with doomed := true } htx
    exact congrArg (d.free + ·) h
  | @commit t tx htx | @commitFailed t tx htx | @rollback t tx htx =>
    have h := Db.opened_close htx
    change d.free + 1 + (d.close i t).opened i = _
    omega
  | beginFailed | queryClosed | commitClosed | rollbackClosed | auto | autoFailed | env => rfl

variable [Fintype ι]

/-- The pool has the same number of connections after an operation, in use or free. -/
theorem Db.pool_opStep (hs : OpStep D i o d a d') : d'.pool = d.pool := by
  have hrest : ∑ j ∈ Finset.univ.erase i, d'.opened j = ∑ j ∈ Finset.univ.erase i, d.opened j := by
    refine Finset.sum_congr rfl fun j hj => ?_
    unfold Db.opened
    rw [txs_of_opStep hs (Finset.ne_of_mem_erase hj)]
  have hself := Db.free_add_opened hs
  unfold Db.pool
  rw [← Finset.add_sum_erase _ _ (Finset.mem_univ i),
    ← Finset.add_sum_erase _ _ (Finset.mem_univ i), hrest]
  omega

omit [DecidableEq L] [DecidableEq Slot] in
/-- A program that dies gives its connections back. -/
theorem Db.pool_closeAll (d : Db ι Slot T S W L) (i : ι) : (d.closeAll i).pool = d.pool := by
  have hrest : ∑ j ∈ Finset.univ.erase i, (d.closeAll i).opened j =
      ∑ j ∈ Finset.univ.erase i, d.opened j := by
    refine Finset.sum_congr rfl fun j hj => ?_
    simp [Db.opened, Db.closeAll, Finset.ne_of_mem_erase hj]
  have hself : (d.closeAll i).opened i = 0 := by simp [Db.opened, Db.closeAll]
  have hfree : (d.closeAll i).free = d.free + d.opened i := rfl
  unfold Db.pool
  rw [← Finset.add_sum_erase _ _ (Finset.mem_univ i),
    ← Finset.add_sum_erase _ _ (Finset.mem_univ i), hrest, hself, hfree]
  omega

end Steps

/-! ## Runs -/

section Runs

variable [DecidableEq ι] [Fintype ι] [DecidableEq L] {D : Dbms T S W L Q E C QA EA} {rank : L → ℕ}
  {n : ι → ℕ} {N : ℕ} {s s' s₀ : Sys ι Slot T S W L Q E QA EA R} {as : List (Action ι C)}

/-- Every program takes its locks in order and holds nothing at its end. -/
structure Sys.Ordered (D : Dbms T S W L Q E C QA EA) (rank : L → ℕ) (n : ι → ℕ) (N : ℕ)
    (s : Sys ι Slot T S W L Q E QA EA R) : Prop where
  pool : s.db.pool = N
  died : ∀ i, s.progs i = none → s.db.Holds i .nothing
  orderly : ∀ i p, s.progs i = some p → ∃ held, s.db.Holds i held ∧
    Orderly D rank (n i) (fun _ held' => held' = .nothing) held p

/-- No program has an operation left that it asks for. -/
def Sys.Finished (s : Sys ι Slot T S W L Q E QA EA R) : Prop :=
  ∀ i o k, s.progs i ≠ some (.op o k)

/-- Some program asks for an operation, and none of those asked for is enabled. -/
def Sys.Stuck (D : Dbms T S W L Q E C QA EA) (s : Sys ι Slot T S W L Q E QA EA R) : Prop :=
  ¬ s.Finished ∧ ∀ i c, s.step D (.exec i c) = none

/-- Every step keeps the order in which the programs take their locks. -/
theorem Sys.Ordered.step {act : Action ι C} (h : s.Ordered D rank n N)
    (hs : s.step D act = some s') : s'.Ordered D rank n N := by
  rcases step_cases hs with ⟨i, o, k, a, d, hp, ha, rfl⟩ | ⟨i, p, rfl, hp, rfl⟩ | ⟨m, rfl, rfl⟩
  · have hop := ha.opStep
    refine ⟨(Db.pool_opStep hop).trans h.pool, fun j hj => ?_, fun j p' hj => ?_⟩
    · by_cases hij : j = i
      · simp [Sys.resume, hij] at hj
      · simp only [Sys.resume, Function.update_of_ne hij] at hj
        exact (h.died j hj).of_opStep hij hop
    · -- The program that has moved holds what its rule says; the others hold what they held.
      by_cases hij : j = i
      · subst hij
        simp only [Sys.resume, Function.update_self, Option.some.injEq] at hj
        obtain ⟨held, hheld, hord⟩ := h.orderly j _ hp
        obtain ⟨held', hheld', hord'⟩ := hord.opStep hheld hop
        exact ⟨held', hheld', hj ▸ hord'⟩
      · simp only [Sys.resume, Function.update_of_ne hij] at hj
        obtain ⟨held, hheld, hord⟩ := h.orderly j p' hj
        exact ⟨held, hheld.of_opStep hij hop, hord⟩
  · -- A program that has died holds nothing afterwards.
    refine ⟨(Db.pool_closeAll s.db i).trans h.pool, fun j hj => ?_, fun j p' hj => ?_⟩
    · by_cases hij : j = i
      · exact hij ▸ Db.holds_closeAll s.db i
      · simp only [Sys.resume, Function.update_of_ne hij] at hj
        exact (h.died j hj).of_closeAll hij
    · by_cases hij : j = i
      · simp [Sys.resume, hij] at hj
      · simp only [Sys.resume, Function.update_of_ne hij] at hj
        obtain ⟨held, hheld, hord⟩ := h.orderly j p' hj
        exact ⟨held, hheld.of_closeAll hij, hord⟩
  · refine ⟨h.pool, fun j hj => (h.died j hj).congr (fun _ => rfl) fun _ _ => Iff.rfl, ?_⟩
    intro j p hj
    obtain ⟨held, hheld, hord⟩ := h.orderly j p hj
    exact ⟨held, hheld.congr (fun _ => rfl) (fun _ _ => Iff.rfl), hord⟩

/-- Every run keeps the order in which the programs take their locks. -/
theorem Sys.Ordered.run (h : s₀.Ordered D rank n N) (hr : s₀.run D as = some s) :
    s.Ordered D rank n N :=
  Sys.run_induction D h (fun _ _ _ hs hstep => hs.step hstep) hr

/-- What a program waits for: nothing when it has ended, a connection, or a lock that another
program owns, of this rank. -/
inductive Sys.Waits (rank : L → ℕ) (n : ι → ℕ) (s : Sys ι Slot T S W L Q E QA EA R) (i : ι) :
    Holding Slot L → ℕ → Prop
  | ended (hp : ∀ o k, s.progs i ≠ some (.op o k)) : Waits rank n s i .nothing 0
  | connection {held} (hfree : s.db.free = 0) (hbelow : held.Below rank 1)
      (hn : held.connections ≤ n i) : Waits rank n s i held 0
  | lock {held} (l : L) (w : ι × Slot) (howner : s.db.owner l = some w)
      (hbelow : held.Below rank (rank l)) (hn : rank l = 0 → held.connections ≤ n i) :
      Waits rank n s i held (rank l)

/-- When nothing is enabled, every program waits. -/
theorem Sys.Ordered.waits [Nonempty C] (h : s.Ordered D rank n N)
    (hexec : ∀ ctx q, ∃ c, (D.exec ctx q c).isSome = true) (i : ι)
    (hstuck : ∀ c, s.step D (.exec i c) = none) :
    ∃ held r, s.db.Holds i held ∧ s.Waits rank n i held r := by
  cases hp : s.progs i with
  | none => exact ⟨.nothing, 0, h.died i hp, .ended fun o k => by simp [hp]⟩
  | some p =>
    obtain ⟨held, hheld, hord⟩ := h.orderly i p hp
    cases p with
    | ret r =>
      have hnothing : held = .nothing := hord
      exact ⟨.nothing, 0, hnothing ▸ hheld, .ended fun o k => by simp [hp]⟩
    | op o k =>
      have hnone : ∀ c, s.db.perform D i o c = none := by
        intro c
        have := hstuck c
        simpa only [Sys.step, hp, Option.map_eq_none_iff] using this
      obtain ⟨c₀⟩ := ‹Nonempty C›
      cases o with
      | begin t =>
        obtain ⟨⟨hheldt, hbelow, hn⟩, -⟩ := hord
        have hopen := hheld.isOpen t
        rw [hheldt, Option.isSome_none] at hopen
        have hfree : s.db.free = 0 := by
          have := hnone c₀
          simp only [Db.perform] at this
          by_contra hne
          rw [if_neg (by simp [hne, hopen])] at this
          cases this
        exact ⟨held, 0, hheld, .connection hfree hbelow hn⟩
      | query t q =>
        obtain ⟨⟨ls, hls, hrule⟩, -⟩ := hord
        have hopen := hheld.isOpen t
        rw [hls, Option.isSome_some] at hopen
        obtain ⟨tx, htx⟩ := Option.isSome_iff_exists.mp hopen
        obtain ⟨c, hc⟩ := hexec
          ⟨tx.start, s.db.seq, D.applyAll s.db.tables tx.writes, s.db.busy (some (i, t))⟩ q
        have hblocked := hnone c
        simp only [Db.perform, htx] at hblocked
        split_ifs at hblocked with hdoomed
        split at hblocked
        · rename_i hnone'
          rw [hnone', Option.isSome_none] at hc
          cases hc
        · cases hblocked
        · rename_i e he
          split_ifs at hblocked with hbusy
          rw [List.any_eq_true] at hbusy
          obtain ⟨l, hl, hbusy⟩ := hbusy
          simp only [Db.busy, Bool.and_eq_true, Option.isSome_iff_exists,
            decide_eq_true_eq] at hbusy
          obtain ⟨⟨w, hw⟩, hother⟩ := hbusy
          -- The lock is not one of the transaction's own.
          have hnew : l ∉ ls := fun hmem => hother ((hheld.owner t l).mpr ⟨ls, hls, hmem⟩)
          obtain ⟨hbelow, hn⟩ := ((hrule _ c e he).1 l hl).resolve_left hnew
          exact ⟨held, rank l, hheld, .lock l w hw hbelow hn⟩
      | commit t =>
        have := hnone c₀
        simp only [Db.perform] at this
        split at this
        · cases this
        · split_ifs at this
      | rollback t =>
        have := hnone c₀
        simp only [Db.perform] at this
        split at this <;> cases this
      | auto q => exact hord.elim
      | env e =>
        obtain ⟨c, hc⟩ := hord.1 s.db.clock
        have := hnone c
        rw [Db.perform, Option.map_eq_none_iff] at this
        rw [this, Option.isSome_none] at hc
        cases hc

/-- When the pool has more connections than the programs hold while they wait for connections and
for locks of rank zero, some program can go on. -/
theorem Sys.Ordered.not_stuck [Nonempty C] (h : s.Ordered D rank n N)
    (hexec : ∀ ctx q, ∃ c, (D.exec ctx q c).isSome = true) (hN : ∑ i, n i < N) :
    ¬ s.Stuck D := by
  rintro ⟨hunfinished, hstuck⟩
  choose held r hheld hwaits using fun i => h.waits hexec i (hstuck i)
  simp only [Sys.Finished, not_forall, not_not] at hunfinished
  obtain ⟨i₀, o₀, k₀, hi₀⟩ := hunfinished
  -- The owner of a lock waits for a connection or for a lock of a higher rank.
  have howner : ∀ l j t, s.db.owner l = some (j, t) →
      s.db.free = 0 ∧ rank l = 0 ∨ rank l < r j := by
    intro l j t ho
    obtain ⟨ls, hls, hl⟩ := ((hheld j).owner t l).mp ho
    generalize hheldj : held j = heldj at hls
    generalize hrj : r j = rj
    have hw := hwaits j
    rw [hheldj, hrj] at hw
    cases hw with
    | ended => cases hls
    | connection hfree hbelow hn => exact Or.inl ⟨hfree, Nat.lt_one_iff.mp (hbelow t ls hls l hl)⟩
    | lock l' w howner' hbelow hn => exact Or.inr (hbelow t ls hls l hl)
  -- So nobody waits for a lock whose rank is not zero: take one of the highest rank.
  obtain ⟨i, -, hmax⟩ := Finset.exists_max_image Finset.univ r ⟨i₀, Finset.mem_univ i₀⟩
  have hzero : ∀ j, r j = 0 := by
    suffices hi : r i = 0 from fun j => Nat.le_zero.mp (hi ▸ hmax j (Finset.mem_univ j))
    have hw := hwaits i
    generalize r i = ri at hw hmax ⊢
    generalize held i = heldi at hw
    cases hw with
    | ended | connection => rfl
    | lock l w ho hbelow hn =>
      rcases howner l w.1 w.2 ho with ⟨-, hrank⟩ | hlt
      · exact hrank
      · exact absurd hlt (not_lt.mpr (hmax w.1 (Finset.mem_univ _)))
  -- Then no connection is free.
  have hfree : s.db.free = 0 := by
    have hw := hwaits i₀
    generalize held i₀ = heldi at hw
    generalize r i₀ = ri at hw
    cases hw with
    | ended hp => exact absurd hi₀ (hp o₀ k₀)
    | connection hfree => exact hfree
    | lock l w ho =>
      rcases howner l w.1 w.2 ho with ⟨hfree, -⟩ | hlt
      · exact hfree
      · rw [hzero] at hlt
        exact absurd hlt (Nat.not_lt_zero _)
  have hfew : ∀ j, s.db.opened j ≤ n j := by
    intro j
    rw [(hheld j).opened]
    have hw := hwaits j
    have hrj := hzero j
    generalize held j = heldj at hw ⊢
    generalize r j = rj at hw hrj
    cases hw with
    | ended => simp [Holding.nothing_connections]
    | connection hfree hbelow hn => exact hn
    | lock l w ho hbelow hn => exact hn hrj
  have hpool : s.db.pool ≤ ∑ j, n j := by
    rw [Db.pool, hfree, Nat.zero_add]
    exact Finset.sum_le_sum fun j _ => hfew j
  rw [h.pool] at hpool
  exact absurd hN (not_lt.mpr hpool)

/-! ## The end of a run -/

/-- What can be left of a program after its next operation. -/
inductive Rest : Option (TxProg Slot Q E QA EA R) → Option (TxProg Slot Q E QA EA R) → Prop
  | op (o : TxOp Slot Q E) (k : o.Ans QA EA → TxProg Slot Q E QA EA R) (a : o.Ans QA EA) :
      Rest (some (k a)) (some (.op o k))

omit [DecidableEq Slot] [Fintype Slot] in
/-- Every program ends after finitely many operations. -/
theorem rest_wf : WellFounded (Rest : Option (TxProg Slot Q E QA EA R) → _ → Prop) := by
  refine ⟨fun p => ?_⟩
  cases p with
  | none => exact ⟨_, fun _ h => nomatch h⟩
  | some p =>
    induction p with
    | ret r => exact ⟨_, fun _ h => nomatch h⟩
    | op o k ih =>
      refine ⟨_, fun q h => ?_⟩
      cases h with
      | op o k a => exact ih a

omit [DecidableEq Slot] [Fintype Slot] in
/-- No program comes after itself, so the relation of being left has no loops. -/
instance : Std.Irrefl (Rest : Option (TxProg Slot Q E QA EA R) → _ → Prop) :=
  ⟨fun _ h => rest_wf.asymmetric _ _ h h⟩

/-- What is left of the programs, as a multiset in which one of them becomes less at each step. -/
def Sys.rests (s : Sys ι Slot T S W L Q E QA EA R) : Multiset (Option (TxProg Slot Q E QA EA R)) :=
  Finset.univ.val.map s.progs

/-- An operation leaves less of the programs. -/
theorem Sys.cutExpand_rests {i : ι} {c : C} (h : s.step D (.exec i c) = some s') :
    Relation.CutExpand Rest s'.rests s.rests := by
  rcases step_cases h with ⟨j, o, k, a, d, hp, ha, rfl⟩ | ⟨j, p, he, -⟩ | ⟨m, he, -⟩
  · have hsplit : ∀ f : ι → Option (TxProg Slot Q E QA EA R), Finset.univ.val.map f =
        (Finset.univ.erase j).val.map f + {f j} := by
      intro f
      rw [← Finset.insert_erase (Finset.mem_univ j),
        Finset.insert_val_of_notMem (Finset.notMem_erase j _), Multiset.map_cons,
        ← Multiset.singleton_add, add_comm, Finset.erase_insert (Finset.notMem_erase j _)]
    have hsame : (Finset.univ.erase j).val.map (Function.update s.progs j (some (k a))) =
        (Finset.univ.erase j).val.map s.progs := by
      refine Multiset.map_congr rfl fun j' hj' => ?_
      exact Function.update_of_ne (Finset.ne_of_mem_erase hj') _ _
    have hself : Function.update s.progs j (some (k a)) j = some (k a) := Function.update_self ..
    unfold Sys.rests Sys.resume
    dsimp only
    rw [hsplit, hsplit s.progs, hsame, hself, hp]
    exact Relation.cutExpand_add_single _ (.op o k a)
  · cases he
  · cases he

/-- Programs cannot perform operations for ever, since every operation leaves less of one of them.
-/
theorem Sys.exec_wf : WellFounded fun s' s : Sys ι Slot T S W L Q E QA EA R =>
    ∃ (i : ι) (c : C), s.step D (.exec i c) = some s' :=
  Subrelation.wf (fun ⟨_, _, h⟩ => Sys.cutExpand_rests h) (InvImage.wf Sys.rests rest_wf.cutExpand)

/-- When the pool has enough connections, all programs can come to their ends by operations only. -/
theorem Sys.Ordered.completes [Nonempty C] (h : s.Ordered D rank n N)
    (hexec : ∀ ctx q, ∃ c, (D.exec ctx q c).isSome = true) (hN : ∑ i, n i < N) :
    ∃ as s', (∀ act ∈ as, ∃ i c, act = Action.exec i c) ∧ s.run D as = some s' ∧ s'.Finished := by
  have hwf : WellFounded fun s' s : Sys ι Slot T S W L Q E QA EA R =>
      ∃ (i : ι) (c : C), s.step D (.exec i c) = some s' := Sys.exec_wf
  induction s using hwf.induction with
  | _ s ih =>
    by_cases hfinished : s.Finished
    · exact ⟨[], s, by simp, rfl, hfinished⟩
    · have hgo := h.not_stuck hexec hN
      simp only [Sys.Stuck, hfinished, not_false_eq_true, true_and, not_forall] at hgo
      obtain ⟨i, c, hne⟩ := hgo
      obtain ⟨s₁, hs₁⟩ := Option.ne_none_iff_exists'.mp hne
      obtain ⟨as, s', has, hrun, hend⟩ := ih s₁ ⟨i, c, hs₁⟩ (h.step hs₁)
      refine ⟨.exec i c :: as, s', ?_, ?_, hend⟩
      · simpa using has
      · rw [← List.singleton_append, Sys.run_append]
        simpa [Sys.run, hs₁] using hrun

end Runs

end RowLock
