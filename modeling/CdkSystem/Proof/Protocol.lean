import CdkSystem.Lib.Triple
import CdkSystem.Proof.Integrity

/-!
# The proof outline of the service

The assertions that every call satisfies at each of its operations (`Start.At`): before a commit,
that the transaction makes a transition of the call; before a rollback, that nothing gets lost by
it; before `IncrementCodeUseCount`, that the code can be counted; before a statement outside a
transaction, that the statement makes a transition; and at the end, what the call has done.

`Start.Inv` is the invariant of the database, and `Start.Le` the order in which it moves. Both
follow from the assertions for every step (`Start.Holds.le`, `Start.Holds.inv`), so a system whose
calls all are safe stays so in every run (`Start.holds_run`).
-/

namespace CdkSystem

open RowLock Relational

variable {ι : Type} [DecidableEq ι] (start : Start ι)

/-- The `id`s of the credentials that an open transaction has inserted have never been there. -/
def Fresh (d : Database ι) : Prop :=
  ∀ i t tx, d.txs i t = some tx → ∀ c, .createCredential c ∈ tx.writes →
    ∀ T, Past d.log d.tables T → T.credentials.get? c.id = none

/-- The invariant of the database. -/
structure Start.Inv (d : Database ι) : Prop where
  lock : LockInv postgres Lock.Same d
  seq : SeqInv d
  seqLe : start.seq.Le d.seq
  history : History start d.log d.tables
  clock : start.clock ≤ d.clock
  times : ∀ e ∈ d.log, e.time ≤ d.clock
  below : ∀ T, Past d.log d.tables T → T.Below d.seq
  fresh : Fresh d

/-- The order in which the database moves. -/
structure Start.Le (d d' : Database ι) : Prop where
  tables : Evolves d.tables d'.tables
  keys : KeysKept d.tables d'.tables
  finished : OverKept d.tables d'.tables
  seq : d.seq.Le d'.seq
  clock : d.clock ≤ d'.clock
  log : d.log <+: d'.log
  past : ∀ T, Past d.log d.tables T → Past d'.log d'.tables T
  failed : ∀ i, d.failed i = true → d'.failed i = true
  taken : ∀ id < start.seq.credentials, Taken d id → Taken d' id ∨ ∃ i, d'.failed i = true

/-- What holds when a transaction is about to be committed: it makes a transition of its call, the
credentials that it has locked are used up by it, and the transaction for a code of a batch request
with a key is inside the one that holds the key. -/
structure Start.Commits (i : ι) (t : Slot) (tx : Tx Write) (d : Database ι) : Prop where
  transition : Transition start d.log ⟨i, d.clock, d.tables, postgres.applyAll d.tables tx.writes⟩
    (start.calls i)
  credentials : ∀ id < start.seq.credentials, d.owner (.credential id) = some (i, t) →
    ∀ r, (postgres.applyAll d.tables tx.writes).credentials.get? id = some r → r.used = true
  key : ∀ req, start.calls i = .batchRedeem req → req.idempotencyKey ≠ "" → t = .tx →
    d.owner (.key req.idempotencyKey) = some (i, .idempotencyTx)

/-- What holds when a transaction is about to be rolled back: it has ended already, or something has
failed, or it has not locked credentials and, when it holds the key of a batch request, no code has
been redeemed. -/
def Start.RollsBack (i : ι) (t : Slot) (d : Database ι) : Prop :=
  d.txs i t = none ∨ d.failed i = true ∨
    (∀ id < start.seq.credentials, d.owner (.credential id) ≠ some (i, t)) ∧
      (t = .idempotencyTx → d.ownLog i = [])

/-- What holds when a statement outside a transaction is about to be executed: it makes a transition
of its call. -/
def Start.Commands (i : ι) (q : Query) (d : Database ι) : Prop :=
  ∀ c e, Query.exec ⟨d.clock, d.seq, d.tables, d.busy none⟩ q c = some (.ok e) →
    Transition start d.log ⟨i, d.clock, d.tables, postgres.applyAll d.tables e.writes⟩
      (start.calls i)

/-- An event of the outbox in a state that its report on a redemption agrees with. -/
structure Reportable (p : UpdateRedemptionWebhookStatusParams) (o : WebhookOutbox)
    (d : Database ι) : Prop where
  row : d.tables.outbox.get? o.id = some o
  redemption : o.redemptionId = p.id
  event : o.eventId = p.eventId
  status : p.webhookStatus ∈ [WebhookStatus.pending, .success, .deadLetter]
  finished : p.webhookStatus ≠ .pending → o.status = p.webhookStatus ∧ o.Over

/-- After a report in the outbox that took effect comes the report on the same event in its
redemption, and there is no such report without the one in the outbox. -/
def ReportsNext {R : Type} :
    (q : Query) → (TxOp.Ans Query.Ans Env.Ans (.auto q : TxOp Slot Query Env) → M R) →
      Database ι → Prop
  | .updateWebhookOutbox p, k, d =>
    ∀ o, d.tables.outbox.get? p.id = some o →
      p.status ∈ [WebhookStatus.success, .failed, .deadLetter] ∧
        ∃ p' k', k (Except.ok 1) = .op (.auto (.updateRedemptionWebhookStatus p')) k' ∧
          p'.id = o.redemptionId ∧ p'.eventId = o.eventId ∧
            p'.webhookStatus = redemptionStatus p.status
  | .updateRedemptionWebhookStatus p, _, d => ∃ o, Reportable p o d
  | _, _, _ => True

/-- The code that is about to be counted is not disabled and has a use left. -/
def Countable (i : ι) (t : Slot) (id : ℕ) (n : ℤ) (d : Database ι) : Prop :=
  ∀ tx, d.txs i t = some tx → ∃ c, (postgres.applyAll d.tables tx.writes).codes.get? id = some c ∧
    c.status = .unused ∧ c.useCount < n

/-- What holds when a call has returned: the result is one of the call, and what has been done is
one of the outcomes of a redemption, a batch redemption or the creation of a batch. -/
def Start.Returned (i : ι) (d : Database ι) : Call → Result → Prop
  | .redeem req, .redeem r => RedeemOutcome start i req start.state.db d r
  | .batchRedeem req, .batchRedeem r => BatchOutcome start i req d r
  | .createBatch req draws, .reply r => CreateOutcome start i req draws d r
  | .toggleBatch _, .reply _ | .toggleCode _, .reply _ | .resendWebhook _, .reply _
  | .deleteCredential _, .reply _ | .batchDeleteCredentials _, .reply _
  | .importCredentials _, .imported _ | .worker _, .worker => True
  | _, _ => False

/-- The assertion at each point of a call. -/
def Start.At (i : ι) : M Result → Database ι → Prop
  | .ret r, d => start.Returned i d (start.calls i) r
  | .op (.commit t) _, d => ∀ tx, d.txs i t = some tx → tx.doomed = false → start.Commits i t tx d
  | .op (.rollback t) _, d => start.RollsBack i t d
  | .op (.query t (.incrementCodeUseCount id n)) _, d => Countable i t id n d
  | .op (.auto q) k, d => start.Commands i q d ∧ ReportsNext q k d
  | _, _ => True

/-- The outline of the service. -/
def Start.outline :
    Outline ι Slot Tables Seqs Write Lock Query Env Query.Ans Env.Ans Result where
  asserts := start.At
  inv := start.Inv
  le := start.Le

variable {start}

omit [DecidableEq ι] in
/-- The database moves up the order when it stands still. -/
theorem Start.Le.refl (d : Database ι) : start.Le d d :=
  ⟨.refl _, .of_eq rfl, .of_eq rfl, .refl _, le_rfl, List.prefix_refl _, fun _ h => h, fun _ h => h,
    fun _ _ h => Or.inl h⟩

omit [DecidableEq ι] in
/-- The database moves up the order in two steps. -/
theorem Start.Le.trans {d d' d'' : Database ι} (h : start.Le d d') (h' : start.Le d' d'') :
    start.Le d d'' where
  tables := h.tables.trans h'.tables
  keys := h.keys.trans h'.keys
  finished := h.finished.trans h'.finished
  seq := h.seq.trans h'.seq
  clock := h.clock.trans h'.clock
  log := h.log.trans h'.log
  past T hT := h'.past T (h.past T hT)
  failed i hi := h'.failed i (h.failed i hi)
  taken id hid ht := by
    rcases h.taken id hid ht with ht | ⟨i, hi⟩
    · exact h'.taken id hid ht
    · exact Or.inr ⟨i, h'.failed i hi⟩

/-- The outline is lawful. -/
theorem Start.outline_lawful : start.outline.Lawful postgres Lock.Same :=
  ⟨Start.Le.refl, Start.Le.trans, Start.Inv.lock⟩

omit [DecidableEq ι] in
/-- A change of the database that leaves the tables and the log alone moves it up the order, if the
credentials that are taken stay taken. -/
theorem Start.Le.of_same {d d' : Database ι} (ht : d'.tables = d.tables) (hl : d'.log = d.log)
    (hs : d.seq.Le d'.seq) (hc : d.clock ≤ d'.clock)
    (hf : ∀ i, d.failed i = true → d'.failed i = true)
    (htaken : ∀ id < start.seq.credentials, Taken d id → Taken d' id ∨ ∃ i, d'.failed i = true) :
    start.Le d d' where
  tables := ht ▸ .refl _
  keys := .of_eq (by rw [ht])
  finished := .of_eq (by rw [ht])
  seq := hs
  clock := hc
  log := hl ▸ List.prefix_refl _
  past T hT := by rwa [ht, hl]
  failed := hf
  taken := htaken

/-- A commit moves the database up the order, if the credentials that are taken stay taken. -/
theorem Start.Le.of_commit {d d' : Database ι} {e : Commit ι Tables} {call : Call}
    (he : Transition start d.log e call) (hb : e.before = d.tables) (ht : d'.tables = e.after)
    (hl : d'.log = d.log ++ [e]) (hs : d.seq.Le d'.seq) (hc : d.clock ≤ d'.clock)
    (hf : ∀ i, d.failed i = true → d'.failed i = true)
    (htaken : ∀ id < start.seq.credentials, Taken d id → Taken d' id ∨ ∃ i, d'.failed i = true) :
    start.Le d d' where
  tables := by
    rw [ht, ← hb]
    exact he.evolves
  keys := by
    rw [ht, ← hb]
    exact he.keysKept
  finished := by
    rw [ht, ← hb]
    exact he.overKept
  seq := hs
  clock := hc
  log := hl ▸ List.prefix_append _ _
  past T hT := by
    rw [ht, hl]
    exact past_commit.mpr (Or.inr (hb ▸ hT))
  failed := hf
  taken := htaken

section Steps

variable {d d' : Database ι} {i : ι}

omit [DecidableEq ι] in
/-- A credential stays taken while its lock stays with its owner. -/
theorem Taken.of_owner {id : ℕ} (h : Taken d id) (ht : d'.tables = d.tables)
    (ho : ∀ w, d.owner (.credential id) = some w → ∃ w', d'.owner (.credential id) = some w') :
    Taken d' id := by
  rcases h with h | ⟨w, hw⟩
  · exact Or.inl (ht ▸ h)
  · exact Or.inr (ho w hw)

/-- A used or deleted credential of the start stays so after a commit. -/
theorem used_of_transition {e : Commit ι Tables} {log : List (Commit ι Tables)} {call : Call}
    (he : Transition start log e call) {id : ℕ} (hid : id < start.seq.credentials)
    (h : ∀ r, e.before.credentials.get? id = some r → r.used = true) :
    ∀ r, e.after.credentials.get? id = some r → r.used = true := by
  intro r hr
  obtain ⟨r₀, hr₀, hl⟩ := he.credentialsKept id r hid hr
  exact hl.used (h r₀ hr₀)

/-- The lock of a row stays with its owner when another transaction ends. -/
theorem owner_close {t : Slot} {l : Lock} {w : ι × Slot} (h : d.owner l = some w)
    (hw : w ≠ (i, t)) : (d.close i t).owner l = some w := by
  simp [Db.close, h, hw]

/-- The commit of a transaction moves the database up the order. -/
theorem Start.Le.commit {t : Slot} {tx : Tx Write} (hc : start.Commits i t tx d) :
    start.Le d ((d.record i (postgres.applyAll d.tables tx.writes)).close i t) := by
  refine Start.Le.of_commit hc.transition rfl rfl rfl (.refl _) le_rfl (fun _ h => h) ?_
  intro id hid htaken
  refine Or.inl ?_
  rcases htaken with hused | ⟨w, hw⟩
  · exact Or.inl (used_of_transition hc.transition hid hused)
  · by_cases hwi : w = (i, t)
    · exact Or.inl (hc.credentials id hid (hwi ▸ hw))
    · exact Or.inr ⟨w, owner_close (d := d.record i _) hw hwi⟩

/-- A failure keeps the flags of failures. -/
theorem failed_flag {j : ι} (h : d.failed j = true) : (d.flag i).failed j = true := by
  by_cases hj : j = i
  · simp [Db.flag, hj]
  · simp [Db.flag, hj, h]

/-- The end of a transaction that is rolled back moves the database up the order. -/
theorem Start.Le.close (hI : start.Inv d) {t : Slot} (hr : start.RollsBack i t d) :
    start.Le d (d.close i t) := by
  refine Start.Le.of_same rfl rfl (.refl _) le_rfl (fun _ h => h) fun id hid htaken => ?_
  rcases hr with hnone | hfailed | ⟨hcred, -⟩
  · refine Or.inl (htaken.of_owner rfl fun w hw => ⟨w, owner_close hw fun hwi => ?_⟩)
    have := hI.lock.isOpen _ i t (hwi ▸ hw)
    simp [hnone] at this
  · exact Or.inr ⟨i, hfailed⟩
  · refine Or.inl (htaken.of_owner rfl fun w hw => ⟨w, owner_close hw fun hwi => ?_⟩)
    exact hcred id hid (hwi ▸ hw)

/-- Every operation at which its assertion holds moves the database up the order. -/
theorem Start.Le.opStep (hI : start.Inv d) {o : TxOp Slot Query Env}
    {k : o.Ans Query.Ans Env.Ans → M Result} {a : o.Ans Query.Ans Env.Ans}
    (hat : start.At i (.op o k) d) (hs : OpStep postgres i o d a d') : start.Le d d' := by
  -- An operation that fails marks its program, and that excuses what it loses.
  have hflag : ∀ d' : Database ι, d'.failed = d.failed → ∀ j, d.failed j = true →
      (d'.flag i).failed j = true := fun d' hd' j hj => failed_flag (by rw [hd']; exact hj)
  have hbroken : ∀ d' : Database ι, ∃ j, (d'.flag i).failed j = true := fun d' =>
    ⟨i, by simp [Db.flag]⟩
  cases hs.did with
  | begin hfree htx =>
    exact .of_same rfl rfl (.refl _) le_rfl (fun _ h => h) fun id _ h =>
      Or.inl (h.of_owner rfl fun w hw => ⟨w, hw⟩)
  | query c htx hd he hl =>
    refine .of_same rfl rfl (seq_of_exec he).1 le_rfl (fun _ h => h) fun id _ h =>
      Or.inl (h.of_owner rfl fun w hw => ?_)
    simp only [Db.grant]
    split_ifs
    · exact ⟨_, rfl⟩
    · exact ⟨w, hw⟩
  | beginFailed | queryFailed htx | queryClosed htx | commitFailed htx | commitClosed htx
  | autoFailed =>
    exact .of_same rfl rfl (.refl _) le_rfl (hflag _ rfl) fun _ _ _ => Or.inr (hbroken _)
  -- A commit moves the tables by a transition, which is what was asserted before it.
  | commit htx hd => exact .commit (hat _ htx hd)
  | rollback htx => exact .close hI hat
  | rollbackClosed htx => exact .refl _
  -- A statement outside a transaction commits by itself.
  | auto c he hl =>
    refine .of_commit (hat.1 c _ he) rfl rfl rfl (seq_of_exec he).1 le_rfl (fun _ h => h) ?_
    intro id hid htaken
    refine Or.inl ?_
    rcases htaken with hused | ⟨w, hw⟩
    · exact Or.inl (used_of_transition (hat.1 c _ he) hid hused)
    · exact Or.inr ⟨w, hw⟩
  | env c he => exact .refl _

/-- The past after an operation: the past before it, and the tables that it leaves. -/
theorem past_of_opStep {o : TxOp Slot Query Env} {a : o.Ans Query.Ans Env.Ans}
    (hs : OpStep postgres i o d a d') {T : Tables} (hT : Past d'.log d'.tables T) :
    T = d'.tables ∨ Past d.log d.tables T := by
  cases hs.did with
  | commit htx hd => exact past_commit.mp hT
  | auto c he hl => exact past_commit.mp hT
  | begin | beginFailed | query | queryFailed | queryClosed | commitFailed | commitClosed | rollback
  | rollbackClosed | autoFailed | env => exact Or.inr hT

/-- The row that an open transaction has inserted is locked by it. -/
theorem owner_of_createCredential (h : LockInv postgres Lock.Same d) {t : Slot} {tx : Tx Write}
    (htx : d.txs i t = some tx) {c : Credential} (hc : .createCredential c ∈ tx.writes) :
    d.owner (.credential c.id) = some (i, t) := by
  by_contra hne
  have hsame := h.writes i t tx htx _ hc (.credential c.id) hne .empty
  have hinsert : (Tables.empty.apply (.createCredential c)).credentials.get? (key c) = some c :=
    Table.get?_insert_self rfl
  have hnone : (Tables.empty.apply (.createCredential c)).credentials.get? (key c) = none := hsame
  rw [hnone] at hinsert
  cases hinsert

omit [DecidableEq ι] in
/-- A statement takes the `id` of a new credential from the sequence. -/
theorem createCredential_of_exec {ctx : Ctx Tables Seqs Lock} {q : Query} {ch : Choice}
    {e : Effect Seqs Write Lock q.Ans} (h : Query.exec ctx q ch = some (.ok e)) {c : Credential}
    (hc : .createCredential c ∈ e.writes) : c.id = ctx.seq.credentials := by
  -- Only one statement inserts credentials, and it takes the next number.
  cases q with
  | createCredential p =>
    obtain rfl := exec_createCredential h
    simp only [List.mem_singleton, Write.createCredential.injEq] at hc
    rw [hc]
    rfl
  | createBatch p =>
    obtain ⟨payload, -, -, rfl⟩ := exec_createBatch h
    simp at hc
  | getBatchByID id =>
    obtain rfl := exec_getBatchByID h
    simp at hc
  | toggleBatchStatus id =>
    rcases exec_toggleBatchStatus h with rfl | ⟨b, -, rfl⟩ <;> simp at hc
  | createCodes ps =>
    obtain ⟨-, -, rfl⟩ := exec_createCodes h
    simp at hc
  | getCodeByCode code =>
    rcases exec_getCodeByCode h with ⟨rfl, -⟩ | ⟨x, b, -, -, -, rfl⟩ <;> simp at hc
  | getCodeByCodeForUpdate id =>
    rcases exec_getCodeByCodeForUpdate h with ⟨-, rfl⟩ | ⟨x, -, rfl⟩ <;> simp at hc
  | toggleCodeStatus id =>
    rcases exec_toggleCodeStatus h with rfl | ⟨x, -, rfl⟩ <;> simp at hc
  | incrementCodeUseCount id n =>
    rcases exec_incrementCodeUseCount h with ⟨rfl, -⟩ | ⟨x, -, -, -, rfl⟩ <;> simp at hc
  | createIdempotencyKey k hash =>
    rcases exec_createIdempotencyKey h with ⟨row, -, rfl⟩ | ⟨-, rfl⟩ <;> simp at hc
  | lockIdempotencyKeyByKey k =>
    rcases exec_lockIdempotencyKeyByKey h with ⟨-, rfl⟩ | ⟨row, -, rfl⟩ <;> simp at hc
  | setIdempotencyResponse k body =>
    rcases exec_setIdempotencyResponse h with ⟨-, rfl⟩ | ⟨row, -, rfl⟩ <;> simp at hc
  | createRedemption p =>
    obtain ⟨-, -, -, rfl⟩ := exec_createRedemption h
    simp at hc
  | getRedemptionByID id =>
    obtain rfl := exec_getRedemptionByID h
    simp at hc
  | updateRedemptionWebhookStatus p =>
    rcases exec_updateRedemptionWebhookStatus h with ⟨rfl, -⟩ | ⟨r, response, -, -, -, -, rfl⟩ <;>
      simp at hc
  | prepareRedemptionWebhookResend id event =>
    rcases exec_prepareRedemptionWebhookResend h with rfl | ⟨r, -, -, -, -, rfl⟩ <;> simp at hc
  | createWebhookOutboxEvent event id =>
    obtain ⟨-, -, rfl⟩ := exec_createWebhookOutboxEvent h
    simp at hc
  | leaseWebhookOutboxEvent token =>
    rcases exec_leaseWebhookOutboxEvent h with rfl | ⟨o, -, -, rfl⟩ <;> simp at hc
  | updateWebhookOutbox p =>
    rcases exec_updateWebhookOutbox h with rfl | ⟨o, response, -, -, -, -, -, rfl⟩ <;> simp at hc
  | deleteCredential id => rcases exec_deleteCredential h with rfl | rfl <;> simp at hc
  | getUnusedCredential plan =>
    rcases exec_getUnusedCredential h with ⟨rfl, -⟩ | ⟨r, -, -, rfl⟩ <;> simp at hc
  | markCredentialUsed id r =>
    rcases exec_markCredentialUsed h with ⟨-, rfl⟩ | ⟨x, -, rfl⟩ <;> simp at hc
  | countAvailableCredentialsByPlan plan =>
    rw [(exec_countAvailableCredentialsByPlan h).1] at hc
    cases hc

/-- Every operation keeps the `id`s of new credentials new. -/
theorem Fresh.opStep (h : Fresh d) (hlock : LockInv postgres Lock.Same d)
    (hbelow : ∀ T, Past d.log d.tables T → T.Below d.seq) {o : TxOp Slot Query Env}
    {a : o.Ans Query.Ans Env.Ans} (hs : OpStep postgres i o d a d') : Fresh d' := by
  intro j t tx htx c hc T hT
  by_cases hslot : ∃ t', o.slot? = some t' ∧ (j, t) = (i, t')
  · -- The transaction of the operation itself.
    obtain ⟨t', ht', heq⟩ := hslot
    obtain ⟨rfl, rfl⟩ := Prod.mk.inj heq
    cases hs.did with
    | begin hfree hnone =>
      simp only [TxOp.slot?, Option.some.injEq] at ht'
      subst ht'
      simp only [Db.setTx, Function.update_self, Option.some.injEq] at htx
      subst htx
      cases hc
    | beginFailed => exact h j t tx htx c hc T hT
    | query ch htx₀ hd he hl =>
      simp only [TxOp.slot?, Option.some.injEq] at ht'
      subst ht'
      simp only [Db.grant, Db.setTx, Function.update_self, Option.some.injEq] at htx
      subst htx
      rcases List.mem_append.mp hc with hc | hc
      · exact h _ _ _ htx₀ c hc T hT
      · -- The new row has the next number, which no row of the past has.
        have hid := createCredential_of_exec he hc
        refine Table.get?_eq_none_iff.mpr fun r hr => ?_
        exact hid ▸ ((hbelow T hT).credentials r hr).ne
    | queryFailed htx₀ =>
      simp only [TxOp.slot?, Option.some.injEq] at ht'
      subst ht'
      simp only [Db.flag, Db.setTx, Function.update_self, Option.some.injEq] at htx
      subst htx
      exact h _ _ _ htx₀ c hc T hT
    | queryClosed htx₀ => exact h j t tx htx c hc T hT
    | commit htx₀ hd =>
      simp only [TxOp.slot?, Option.some.injEq] at ht'
      subst ht'
      simp [Db.close, Db.record] at htx
    | commitFailed htx₀ =>
      simp only [TxOp.slot?, Option.some.injEq] at ht'
      subst ht'
      simp [Db.close, Db.flag] at htx
    | commitClosed htx₀ => exact h j t tx htx c hc T hT
    | rollback htx₀ =>
      simp only [TxOp.slot?, Option.some.injEq] at ht'
      subst ht'
      simp [Db.close] at htx
    | rollbackClosed htx₀ => exact h j t tx htx c hc T hT
    | auto ch he hl => cases ht'
    | autoFailed => cases ht'
    | env ch he => cases ht'
  · -- The others have their rows locked.
    have hframe := OpStep.slotFrame postgres_lawful hlock hs (w := (j, t))
      fun t' ht' heq => hslot ⟨t', ht', heq⟩
    have htx₀ : d.txs j t = some tx := hframe.tx.symm.trans htx
    -- The tables changed with this operation, or they are of the past that there was before it.
    rcases past_of_opStep hs hT with rfl | hT
    · have hrow : d'.tables.credentials.get? c.id = d.tables.credentials.get? c.id :=
        hframe.rows _ (owner_of_createCredential hlock htx₀ hc)
      rw [hrow]
      exact h j t tx htx₀ c hc _ (Or.inl rfl)
    · exact h j t tx htx₀ c hc T hT

/-- Every operation at which its assertion holds keeps the invariant. -/
theorem Start.Inv.opStep (hI : start.Inv d) {o : TxOp Slot Query Env}
    {k : o.Ans Query.Ans Env.Ans → M Result} {a : o.Ans Query.Ans Env.Ans}
    (hat : start.At i (.op o k) d) (hs : OpStep postgres i o d a d') : start.Inv d' := by
  have hlock := hI.lock.opStep postgres_lawful hs
  have hfresh := hI.fresh.opStep hI.lock hI.below hs
  obtain ⟨hseq, hle⟩ := hI.seq.opStep hs
  -- Most operations change nothing that is committed.
  have hsame : d'.log = d.log → d'.tables = d.tables → d'.clock = d.clock → start.Inv d' :=
    fun hl ht hc => ⟨hlock, hseq, hI.seqLe.trans hle, by rw [hl, ht]; exact hI.history,
      by rw [hc]; exact hI.clock, by rw [hl, hc]; exact hI.times,
      by rw [hl, ht]; exact fun T hT => (hI.below T hT).mono hle, hfresh⟩
  -- The others are commits, and their transition is asserted before them.
  have hcommit : ∀ T, Transition start d.log ⟨i, d.clock, d.tables, T⟩ (start.calls i) →
      d'.log = d.log ++ [⟨i, d.clock, d.tables, T⟩] → d'.tables = T → d'.clock = d.clock →
      start.Inv d' := by
    intro T he hl ht hc
    refine ⟨hlock, hseq, hI.seqLe.trans hle, ?_, hc ▸ hI.clock, ?_, fun T' hT' => ?_, hfresh⟩
    · rw [hl, ht]
      exact @History.commit _ _ start d.log ⟨i, d.clock, d.tables, T⟩ hI.history hI.clock he
    · rw [hl, hc]
      intro e he'
      rcases List.mem_append.mp he' with he' | he'
      · exact hI.times e he'
      · rw [List.mem_singleton.mp he']
    · rcases past_of_opStep hs hT' with rfl | hT'
      · exact hseq.tables
      · exact (hI.below T' hT').mono hle
  cases hs.did with
  | begin hfree htx => exact hsame rfl rfl rfl
  | query c htx hd he hl => exact hsame rfl rfl rfl
  | beginFailed | queryFailed htx | queryClosed htx | commitFailed htx | commitClosed htx
  | autoFailed => exact hsame rfl rfl rfl
  | commit htx hd => exact hcommit _ (hat _ htx hd).transition rfl rfl rfl
  | rollback htx => exact hsame rfl rfl rfl
  | rollbackClosed htx => exact hI
  | auto c he hl => exact hcommit _ (hat.1 c _ he) rfl rfl rfl
  | env c he => exact hI

/-- A program that dies moves the database up the order. -/
theorem Start.Le.closeAll : start.Le d (d.closeAll i) := by
  refine .of_same rfl rfl (.refl _) le_rfl (fun j hj => ?_) fun _ _ _ =>
    Or.inr ⟨i, by simp [Db.closeAll]⟩
  by_cases hji : j = i
  · simp [Db.closeAll, hji]
  · simp [Db.closeAll, hji, hj]

/-- A program that dies keeps the invariant. -/
theorem Start.Inv.closeAll (hI : start.Inv d) : start.Inv (d.closeAll i) :=
  ⟨hI.lock.closeAll i, hI.seq.closeAll i, hI.seqLe, hI.history, hI.clock, hI.times, hI.below,
    fun j t tx htx c hc T hT => by
      by_cases hj : j = i
      · subst hj
        simp [Db.closeAll] at htx
      · exact hI.fresh j t tx (by simpa [Db.closeAll, hj] using htx) c hc T hT⟩

/-- Time passing keeps the invariant and moves the database up the order. -/
theorem Start.Inv.tick (hI : start.Inv d) (n : ℕ) :
    start.Inv { d with clock := d.clock + n } ∧ start.Le d { d with clock := d.clock + n } := by
  have hn : d.clock ≤ d.clock + n := le_add_of_nonneg_right (Int.natCast_nonneg n)
  refine ⟨⟨hI.lock.congr rfl rfl, ⟨hI.seq.tables, hI.seq.writes⟩, hI.seqLe, hI.history,
    hI.clock.trans hn, fun e he => (hI.times e he).trans hn, hI.below, hI.fresh⟩, ?_⟩
  exact .of_same rfl rfl (.refl _) hn (fun _ h => h) fun _ _ h =>
    Or.inl (h.of_owner rfl fun w hw => ⟨w, hw⟩)

end Steps

/-! ## Runs -/

variable {s s' : State ι} {a : Action ι Choice}

/-- A step from a state in which all calls are safe moves the database up the order and leaves all
calls safe. -/
theorem Start.holds_step (h : start.outline.Holds postgres Lock.Same s)
    (hs : s.step postgres a = some s') :
    start.Le s.db s'.db ∧ start.outline.Holds postgres Lock.Same s' := by
  have hboth : start.Le s.db s'.db ∧ start.Inv s'.db := by
    rcases Sys.step_cases hs with ⟨i, o, k, x, d', hp, ha, rfl⟩ | ⟨i, p, -, -, rfl⟩ | ⟨n, -, rfl⟩
    · have hop := ha.opStep
      have hat := h.asserts postgres_lawful start.outline_lawful hp
      exact ⟨Start.Le.opStep h.inv hat hop, Start.Inv.opStep h.inv hat hop⟩
    · exact ⟨Start.Le.closeAll, Start.Inv.closeAll h.inv⟩
    · exact (Start.Inv.tick h.inv n).symm
  exact ⟨hboth.1, h.step postgres_lawful start.outline_lawful hs hboth.1 hboth.2⟩

/-- The invariant holds at the start. -/
theorem Start.inv_state : start.Inv start.state.db where
  lock := ⟨by simp [Start.state], by simp [Start.state]⟩
  seq := ⟨start.below, by simp [Start.state]⟩
  seqLe := .refl _
  history := History.start
  clock := le_rfl
  times := by simp [Start.state]
  below := by
    rintro T (rfl | ⟨e, he, -⟩)
    · exact start.below
    · cases he
  fresh := by
    intro i t tx htx
    cases htx

/-- If all calls are safe at the start, they are safe in every run. -/
theorem Start.holds_run {as : List (Action ι Choice)}
    (hsafe : ∀ i d, start.outline.Rely Lock.Same i start.state.db d →
      start.outline.Safe postgres Lock.Same i (callProgram start.rt (start.calls i)) d)
    (h : start.run as = some s) : start.outline.Holds postgres Lock.Same s := by
  refine Sys.run_induction postgres ?_ (fun s a s' hs hstep => (Start.holds_step hs hstep).2) h
  refine ⟨Start.inv_state, fun i p hp d hr => ?_⟩
  simp only [Start.state, Option.some.injEq] at hp
  exact hp ▸ hsafe i d hr

end CdkSystem
