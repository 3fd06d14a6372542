import CdkSystem.Proof.Locking
import CdkSystem.System

/-!
# What changes never do

Two facts about all changes, whoever makes them. The `id`s of inserted rows come from the sequences,
so every row has an `id` below its sequence and the next `id` is new (`SeqInv`). And rows other than
credentials are never deleted and keep most of their columns: a batch keeps all but its status, a
code keeps its text and its batch and its use count does not go down (`Evolves`).
-/

namespace CdkSystem

open RowLock Relational

/-! ## Sequences -/

/-- Sequences only advance: each of them is at least what it was. -/
structure Seqs.Le (q q' : Seqs) : Prop where
  batches : q.batches ≤ q'.batches
  codes : q.codes ≤ q'.codes
  credentials : q.credentials ≤ q'.credentials
  redemptions : q.redemptions ≤ q'.redemptions
  outbox : q.outbox ≤ q'.outbox

/-- Sequences that stand still have advanced, by nothing. -/
theorem Seqs.Le.refl (q : Seqs) : q.Le q := ⟨le_rfl, le_rfl, le_rfl, le_rfl, le_rfl⟩

/-- Sequences that advance twice have advanced in all. -/
theorem Seqs.Le.trans {q q' q'' : Seqs} (h : q.Le q') (h' : q'.Le q'') : q.Le q'' :=
  ⟨h.batches.trans h'.batches, h.codes.trans h'.codes, h.credentials.trans h'.credentials,
    h.redemptions.trans h'.redemptions, h.outbox.trans h'.outbox⟩

/-- The row that a change inserts, if it inserts one, has an `id` below its sequence. -/
def Write.Below (q : Seqs) : Write → Prop
  | .createBatch b => b.id < q.batches
  | .createCode c => c.id < q.codes
  | .createCredential c => c.id < q.credentials
  | .createRedemption r => r.id < q.redemptions
  | .createWebhookOutboxEvent o => o.id < q.outbox
  | _ => True

/-- Rows below the sequences stay below them when the sequences advance. -/
theorem Tables.Below.mono {q q' : Seqs} {T : Tables} (h : T.Below q) (hq : q.Le q') : T.Below q' :=
  ⟨fun b hb => (h.batches b hb).trans_le hq.batches, fun c hc => (h.codes c hc).trans_le hq.codes,
    fun c hc => (h.credentials c hc).trans_le hq.credentials,
    fun r hr => (h.redemptions r hr).trans_le hq.redemptions,
    fun o ho => (h.outbox o ho).trans_le hq.outbox⟩

/-- An inserted row below the sequences stays below them when the sequences advance. -/
theorem Write.Below.mono {q q' : Seqs} {w : Write} (h : w.Below q) (hq : q.Le q') : w.Below q' := by
  cases w with
  | createBatch => exact lt_of_lt_of_le h hq.batches
  | createCode => exact lt_of_lt_of_le h hq.codes
  | createCredential => exact lt_of_lt_of_le h hq.credentials
  | createRedemption => exact lt_of_lt_of_le h hq.redemptions
  | createWebhookOutboxEvent => exact lt_of_lt_of_le h hq.outbox
  | _ => trivial

section Rows

variable {R K : Type} [HasKey R K] [DecidableEq K]

/-- A property of all rows and of an inserted row is one of all rows afterwards. -/
theorem forall_mem_insert {t : Table R} {r : R} {p : R → Prop} (h : ∀ x ∈ t, p x) (hr : p r) :
    ∀ x ∈ t.insert r, p x := by
  intro x hx
  rcases Table.mem_or_eq_of_mem_insert hx with hx | rfl
  · exact h x hx
  · exact hr

/-- A property of all rows that a change keeps is one of all rows afterwards. -/
theorem forall_mem_modify {t : Table R} {k : K} {f : R → R} (hf : ∀ r, key (f r) = key r)
    {p : R → Prop} (h : ∀ x ∈ t, p x) (hp : ∀ r, p r → p (f r)) : ∀ x ∈ t.modify k f hf, p x := by
  intro x hx
  obtain ⟨r, hr, rfl⟩ := Table.mem_modify.mp hx
  split_ifs
  · exact hp r (h r hr)
  · exact h r hr

end Rows

/-- A change whose row is below the sequences keeps all rows below them. -/
theorem Tables.Below.apply {q : Seqs} {T : Tables} (h : T.Below q) {w : Write} (hw : w.Below q) :
    (T.apply w).Below q := by
  cases w with
  | createBatch b => exact { h with batches := forall_mem_insert h.batches hw }
  | toggleBatchStatus id =>
    exact { h with batches := forall_mem_modify (by intro r; rfl) h.batches fun _ hr => hr }
  | createCode c => exact { h with codes := forall_mem_insert h.codes hw }
  | toggleCodeStatus id | incrementCodeUseCount id =>
    exact { h with codes := forall_mem_modify (by intro r; rfl) h.codes fun _ hr => hr }
  | createCredential c => exact { h with credentials := forall_mem_insert h.credentials hw }
  | markCredentialUsed id r =>
    exact { h with credentials := forall_mem_modify (by intro r; rfl) h.credentials fun _ hr => hr }
  | deleteCredential id =>
    exact { h with credentials := fun c hc => h.credentials c (Table.mem_erase.mp hc).1 }
  | createIdempotencyKey k | setIdempotencyResponse k body => exact { h with }
  | createRedemption r => exact { h with redemptions := forall_mem_insert h.redemptions hw }
  | updateRedemptionWebhookStatus id report | prepareRedemptionWebhookResend id event =>
    exact { h with redemptions := forall_mem_modify (by intro r; rfl) h.redemptions fun _ hr => hr }
  | createWebhookOutboxEvent o => exact { h with outbox := forall_mem_insert h.outbox hw }
  | leaseWebhookOutboxEvent id token expires | updateWebhookOutbox id report =>
    exact { h with outbox := forall_mem_modify (by intro r; rfl) h.outbox fun _ hr => hr }

/-- Changes whose rows are below the sequences keep all rows below them. -/
theorem Tables.Below.applyAll {q : Seqs} {ws : List Write} {T : Tables} (h : T.Below q)
    (hw : ∀ w ∈ ws, w.Below q) : (postgres.applyAll T ws).Below q := by
  induction ws generalizing T with
  | nil => exact h
  | cons w ws ih =>
    exact ih (h.apply (hw w (by simp))) fun w' hw' => hw w' (by simp [hw'])

/-- The rows of `CreateCodes` have `id`s from the sequence on. -/
theorem mem_codeRows {ps : List CreateCodesParams} {next : ℕ} {c : Code}
    (h : c ∈ codeRows next ps) : next ≤ c.id ∧ c.id < next + ps.length := by
  induction ps generalizing next with
  | nil => simp [codeRows] at h
  | cons p ps ih =>
    rw [codeRows, List.mem_cons] at h
    rcases h with rfl | h
    · simp
    · have := ih h
      simp only [List.length_cons]
      omega

/-- `CreateCodes` inserts one row for each of its parameters. -/
theorem length_codeRows (next : ℕ) (ps : List CreateCodesParams) :
    (codeRows next ps).length = ps.length := by
  induction ps generalizing next with
  | nil => rfl
  | cons p ps ih => simp [codeRows, ih]

/-- A statement advances the sequences beyond the rows that it inserts. -/
theorem seq_of_exec {ctx : Ctx Tables Seqs Lock} {q : Query} {c : Choice}
    {e : Effect Seqs Write Lock q.Ans} (h : Query.exec ctx q c = some (.ok e)) :
    ctx.seq.Le e.seq ∧ ∀ w ∈ e.writes, w.Below e.seq := by
  have hid : ctx.seq.Le ctx.seq := Seqs.Le.refl _
  -- Only the insertions take a number from a sequence, and each of them takes the next ones.
  cases q with
  | createBatch p =>
    obtain ⟨payload, -, -, rfl⟩ := exec_createBatch h
    exact ⟨{ hid with batches := Nat.le_succ _ }, by simp [Write.Below, CreateBatchParams.row]⟩
  | getBatchByID id =>
    cases exec_getBatchByID h
    exact ⟨hid, by simp⟩
  | toggleBatchStatus id =>
    rcases exec_toggleBatchStatus h with rfl | ⟨b, -, rfl⟩ <;> exact ⟨hid, by simp [Write.Below]⟩
  | createCodes ps =>
    obtain ⟨-, -, rfl⟩ := exec_createCodes h
    refine ⟨{ hid with codes := Nat.le_add_right _ _ }, ?_⟩
    simp only [List.mem_map]
    rintro _ ⟨x, hx, rfl⟩
    rw [Write.Below, length_codeRows]
    exact (mem_codeRows hx).2
  | getCodeByCode code =>
    rcases exec_getCodeByCode h with ⟨rfl, -⟩ | ⟨x, b, -, -, -, rfl⟩ <;> exact ⟨hid, by simp⟩
  | getCodeByCodeForUpdate id =>
    rcases exec_getCodeByCodeForUpdate h with ⟨-, rfl⟩ | ⟨x, -, rfl⟩ <;> exact ⟨hid, by simp⟩
  | toggleCodeStatus id =>
    rcases exec_toggleCodeStatus h with rfl | ⟨x, -, rfl⟩ <;> exact ⟨hid, by simp [Write.Below]⟩
  | incrementCodeUseCount id n =>
    rcases exec_incrementCodeUseCount h with ⟨rfl, -⟩ | ⟨x, -, -, -, rfl⟩ <;>
      exact ⟨hid, by simp [Write.Below]⟩
  | createIdempotencyKey k hash =>
    rcases exec_createIdempotencyKey h with ⟨row, -, rfl⟩ | ⟨-, rfl⟩ <;>
      exact ⟨hid, by simp [Write.Below]⟩
  | lockIdempotencyKeyByKey k =>
    rcases exec_lockIdempotencyKeyByKey h with ⟨-, rfl⟩ | ⟨row, -, rfl⟩ <;> exact ⟨hid, by simp⟩
  | setIdempotencyResponse k body =>
    rcases exec_setIdempotencyResponse h with ⟨-, rfl⟩ | ⟨row, -, rfl⟩ <;>
      exact ⟨hid, by simp [Write.Below]⟩
  | createRedemption p =>
    obtain ⟨-, -, -, rfl⟩ := exec_createRedemption h
    exact ⟨{ hid with redemptions := Nat.le_succ _ },
      by simp [Write.Below, CreateRedemptionParams.row]⟩
  | getRedemptionByID id =>
    cases exec_getRedemptionByID h
    exact ⟨hid, by simp⟩
  | updateRedemptionWebhookStatus p =>
    rcases exec_updateRedemptionWebhookStatus h with ⟨rfl, -⟩ | ⟨r, x, -, -, -, -, rfl⟩ <;>
      exact ⟨hid, by simp [Write.Below]⟩
  | prepareRedemptionWebhookResend id event =>
    rcases exec_prepareRedemptionWebhookResend h with rfl | ⟨r, -, -, -, -, rfl⟩ <;>
      exact ⟨hid, by simp [Write.Below]⟩
  | createWebhookOutboxEvent event id =>
    obtain ⟨-, -, rfl⟩ := exec_createWebhookOutboxEvent h
    exact ⟨{ hid with outbox := Nat.le_succ _ }, by simp [Write.Below, newOutboxEvent]⟩
  | leaseWebhookOutboxEvent token =>
    rcases exec_leaseWebhookOutboxEvent h with rfl | ⟨o, -, -, rfl⟩ <;>
      exact ⟨hid, by simp [Write.Below]⟩
  | updateWebhookOutbox p =>
    rcases exec_updateWebhookOutbox h with rfl | ⟨o, x, -, -, -, -, -, rfl⟩ <;>
      exact ⟨hid, by simp [Write.Below]⟩
  | createCredential p =>
    cases exec_createCredential h
    exact ⟨{ hid with credentials := Nat.le_succ _ },
      by simp [Write.Below, CreateCredentialParams.row]⟩
  | deleteCredential id =>
    rcases exec_deleteCredential h with rfl | rfl <;> exact ⟨hid, by simp [Write.Below]⟩
  | getUnusedCredential plan =>
    rcases exec_getUnusedCredential h with ⟨rfl, -⟩ | ⟨r, -, -, rfl⟩ <;> exact ⟨hid, by simp⟩
  | markCredentialUsed id r =>
    rcases exec_markCredentialUsed h with ⟨-, rfl⟩ | ⟨x, -, rfl⟩ <;>
      exact ⟨hid, by simp [Write.Below]⟩
  | countAvailableCredentialsByPlan plan =>
    obtain ⟨hw, -, hs⟩ := exec_countAvailableCredentialsByPlan h
    rw [hw, hs]
    exact ⟨hid, by simp⟩

section Database

variable {ι : Type} [DecidableEq ι]

/-- All rows, committed or not, have `id`s below the sequences. -/
structure SeqInv (d : Database ι) : Prop where
  tables : d.tables.Below d.seq
  writes : ∀ i t tx, d.txs i t = some tx → ∀ w ∈ tx.writes, w.Below d.seq

omit [DecidableEq ι] in
/-- What a transaction sees has `id`s below the sequences. -/
theorem SeqInv.view {d : Database ι} (h : SeqInv d) {i : ι} {t : Slot} {tx : Tx Write}
    (htx : d.txs i t = some tx) : (postgres.applyAll d.tables tx.writes).Below d.seq :=
  h.tables.applyAll (h.writes i t tx htx)

/-- The invariant of the sequences after a change of one transaction's record. -/
theorem SeqInv.setTx {d : Database ι} (h : SeqInv d) (i : ι) (t : Slot) (tx : Tx Write)
    (hw : ∀ w ∈ tx.writes, w.Below d.seq) : SeqInv (d.setTx i t tx) := by
  refine ⟨h.tables, fun j t' tx' htx' => ?_⟩
  by_cases hj : j = i
  · subst hj
    by_cases ht : t' = t
    · subst ht
      simp only [Db.setTx, Function.update_self, Option.some.injEq] at htx'
      exact htx' ▸ hw
    · exact h.writes j t' tx' (by simpa [Db.setTx, ht] using htx')
  · exact h.writes j t' tx' (by simpa [Db.setTx, hj] using htx')

/-- Ending a transaction keeps the invariant of the sequences. -/
theorem SeqInv.close {d : Database ι} (h : SeqInv d) (i : ι) (t : Slot) : SeqInv (d.close i t) := by
  refine ⟨h.tables, fun j t' tx htx => h.writes j t' tx ?_⟩
  by_cases hj : j = i
  · subst hj
    by_cases ht : t' = t
    · subst ht
      simp [Db.close] at htx
    · simpa [Db.close, ht] using htx
  · simpa [Db.close, hj] using htx

omit [DecidableEq ι] in
/-- The invariant of the sequences when they advance. -/
theorem SeqInv.advance {d : Database ι} (h : SeqInv d) {q : Seqs} (hq : d.seq.Le q) :
    SeqInv { d with seq := q } :=
  ⟨h.tables.mono hq, fun i t tx htx w hw => (h.writes i t tx htx w hw).mono hq⟩

/-- Every operation keeps the invariant of the sequences, and advances them. -/
theorem SeqInv.opStep {d d' : Database ι} (h : SeqInv d) {i : ι} {o : TxOp Slot Query Env}
    {a : o.Ans Query.Ans Env.Ans} (hs : OpStep postgres i o d a d') :
    SeqInv d' ∧ d.seq.Le d'.seq := by
  have hid := Seqs.Le.refl d.seq
  cases hs.did with
  | @begin t hfree htx =>
    have := h.setTx i t ⟨d.clock, [], false⟩ (by simp)
    exact ⟨⟨this.tables, this.writes⟩, hid⟩
  | beginFailed | queryClosed htx | commitClosed htx | autoFailed =>
    exact ⟨⟨h.tables, h.writes⟩, hid⟩
  -- A statement may move the sequences, and it writes below where they are afterwards.
  | @query t q tx c e htx hd he hl =>
    obtain ⟨hq, hw⟩ := seq_of_exec he
    have := (h.advance hq).setTx i t { tx with writes := tx.writes ++ e.writes } fun w hw' => by
      rcases List.mem_append.mp hw' with hw' | hw'
      · exact (h.writes i t tx htx w hw').mono hq
      · exact hw w hw'
    exact ⟨⟨this.tables, this.writes⟩, hq⟩
  | @queryFailed t q tx htx =>
    have := h.setTx i t { tx with doomed := true } (h.writes i t tx htx)
    exact ⟨⟨this.tables, this.writes⟩, hid⟩
  -- What is committed was written below the sequences before.
  | @commit t tx htx hd =>
    have hrecord : SeqInv (d.record i (postgres.applyAll d.tables tx.writes)) :=
      ⟨h.view htx, h.writes⟩
    exact ⟨hrecord.close i t, hid⟩
  | @commitFailed t tx htx =>
    have := h.close i t
    exact ⟨⟨this.tables, this.writes⟩, hid⟩
  | rollback htx => exact ⟨h.close i _, hid⟩
  | rollbackClosed htx => exact ⟨h, hid⟩
  | @auto q c e he hl =>
    obtain ⟨hq, hw⟩ := seq_of_exec he
    exact ⟨⟨(h.tables.mono hq).applyAll hw,
      fun j t tx htx w hw => (h.writes j t tx htx w hw).mono hq⟩, hq⟩
  | env c he => exact ⟨h, hid⟩

/-- A program that dies keeps the invariant of the sequences. -/
theorem SeqInv.closeAll {d : Database ι} (h : SeqInv d) (i : ι) : SeqInv (d.closeAll i) := by
  refine ⟨h.tables, fun j t tx htx => h.writes j t tx ?_⟩
  by_cases hj : j = i
  · subst hj
    simp [Db.closeAll] at htx
  · simpa [Db.closeAll, hj] using htx

end Database

/-! ## Rows -/

/-- A later version of a batch: nothing but its status can have changed. -/
def Batch.Later (b b' : Batch) : Prop := ∃ status, b' = { b with status }

/-- A later version of a code: its text and its batch stay, and its uses do not become fewer. -/
structure Code.Later (c c' : Code) : Prop where
  id : c'.id = c.id
  batchId : c'.batchId = c.batchId
  code : c'.code = c.code
  useCount : c.useCount ≤ c'.useCount

/-- A later version of a redemption: all but the webhook's state is the same. -/
def Redemption.Later (r r' : Redemption) : Prop :=
  ∃ status response attempt event, r' =
    { r with
      webhookStatus := status
      webhookResponse := response
      webhookAttempt := attempt
      eventId := event }

/-- A later version of an outbox row. -/
structure WebhookOutbox.Later (o o' : WebhookOutbox) : Prop where
  id : o'.id = o.id
  eventId : o'.eventId = o.eventId
  redemptionId : o'.redemptionId = o.redemptionId

/-- A later version of a key's row: the request is the same. -/
def IdempotencyKey.Later (k k' : IdempotencyKey) : Prop := k'.requestHash = k.requestHash

/-- The row of every key has a later version. -/
def Table.Kept {R K : Type} [HasKey R K] [DecidableEq K] (later : R → R → Prop)
    (t t' : Table R) : Prop :=
  ∀ k r, t.get? k = some r → ∃ r', t'.get? k = some r' ∧ later r r'

/-- No row disappears, and the rows that are there afterwards are later versions. -/
structure Evolves (T T' : Tables) : Prop where
  batches : Table.Kept Batch.Later T.batches T'.batches
  codes : Table.Kept Code.Later T.codes T'.codes
  keys : Table.Kept IdempotencyKey.Later T.keys T'.keys
  redemptions : Table.Kept Redemption.Later T.redemptions T'.redemptions
  outbox : Table.Kept WebhookOutbox.Later T.outbox T'.outbox

section Kept

variable {R K : Type} [HasKey R K] [DecidableEq K] {later : R → R → Prop} {t t' t'' : Table R}

/-- Every row is a later version of itself. -/
theorem Table.Kept.refl (h : ∀ r, later r r) (t : Table R) : Table.Kept later t t :=
  fun _ r hr => ⟨r, hr, h r⟩

/-- Later versions of later versions are later versions. -/
theorem Table.Kept.trans (htrans : ∀ {a b c}, later a b → later b c → later a c)
    (h : Table.Kept later t t') (h' : Table.Kept later t' t'') : Table.Kept later t t'' := by
  intro k r hr
  obtain ⟨r', hr', hl⟩ := h k r hr
  obtain ⟨r'', hr'', hl'⟩ := h' k r' hr'
  exact ⟨r'', hr'', htrans hl hl'⟩

/-- An insertion keeps all rows that were in the table before. -/
theorem Table.Kept.insert (h : ∀ r, later r r) (t : Table R) (x : R) :
    Table.Kept later t (t.insert x) :=
  fun _ r hr => ⟨r, Table.get?_insert_of_get? hr, h r⟩

/-- A change to later versions keeps all rows. -/
theorem Table.Kept.modify (h : ∀ r, later r r) (t : Table R) (k : K) {f : R → R}
    (hf : ∀ r, key (f r) = key r) (hlater : ∀ r, later r (f r)) :
    Table.Kept later t (t.modify k f hf) := by
  intro k' r hr
  rw [Table.get?_modify]
  split_ifs with hk
  · subst hk
    exact ⟨f r, by rw [hr]; rfl, hlater r⟩
  · exact ⟨r, hr, h r⟩

end Kept

/-- A batch is a later version of itself. -/
theorem Batch.Later.refl (b : Batch) : b.Later b := ⟨b.status, rfl⟩

/-- Later versions of batches in two steps. -/
theorem Batch.Later.trans {b b' b'' : Batch} (h : b.Later b') (h' : b'.Later b'') :
    b.Later b'' := by
  obtain ⟨s, rfl⟩ := h
  obtain ⟨s', rfl⟩ := h'
  exact ⟨s', rfl⟩

/-- A code is a later version of itself. -/
theorem Code.Later.refl (c : Code) : c.Later c := ⟨rfl, rfl, rfl, le_rfl⟩

/-- Later versions of codes in two steps. -/
theorem Code.Later.trans {c c' c'' : Code} (h : c.Later c') (h' : c'.Later c'') : c.Later c'' :=
  ⟨h'.id.trans h.id, h'.batchId.trans h.batchId, h'.code.trans h.code,
    h.useCount.trans h'.useCount⟩

/-- A redemption is a later version of itself. -/
theorem Redemption.Later.refl (r : Redemption) : r.Later r :=
  ⟨r.webhookStatus, r.webhookResponse, r.webhookAttempt, r.eventId, rfl⟩

/-- Later versions of redemptions in two steps. -/
theorem Redemption.Later.trans {r r' r'' : Redemption} (h : r.Later r') (h' : r'.Later r'') :
    r.Later r'' := by
  obtain ⟨s, p, a, e, rfl⟩ := h
  obtain ⟨s', p', a', e', rfl⟩ := h'
  exact ⟨s', p', a', e', rfl⟩

/-- An outbox row is a later version of itself. -/
theorem WebhookOutbox.Later.refl (o : WebhookOutbox) : o.Later o := ⟨rfl, rfl, rfl⟩

/-- Later versions of outbox rows in two steps. -/
theorem WebhookOutbox.Later.trans {o o' o'' : WebhookOutbox} (h : o.Later o') (h' : o'.Later o'') :
    o.Later o'' :=
  ⟨h'.id.trans h.id, h'.eventId.trans h.eventId, h'.redemptionId.trans h.redemptionId⟩

/-- A key's row is a later version of itself. -/
theorem IdempotencyKey.Later.refl (k : IdempotencyKey) : k.Later k := Eq.refl k.requestHash

/-- Later versions of a key's row in two steps. -/
theorem IdempotencyKey.Later.trans {k k' k'' : IdempotencyKey} (h : k.Later k')
    (h' : k'.Later k'') : k.Later k'' :=
  Eq.trans h' h

/-- Tables that do not change have evolved, by nothing. -/
theorem Evolves.refl (T : Tables) : Evolves T T :=
  ⟨.refl Batch.Later.refl _, .refl Code.Later.refl _, .refl IdempotencyKey.Later.refl _,
    .refl Redemption.Later.refl _, .refl WebhookOutbox.Later.refl _⟩

/-- Tables that evolve twice have evolved in all. -/
theorem Evolves.trans {T T' T'' : Tables} (h : Evolves T T') (h' : Evolves T' T'') :
    Evolves T T'' :=
  ⟨h.batches.trans Batch.Later.trans h'.batches, h.codes.trans Code.Later.trans h'.codes,
    h.keys.trans IdempotencyKey.Later.trans h'.keys,
    h.redemptions.trans Redemption.Later.trans h'.redemptions,
    h.outbox.trans WebhookOutbox.Later.trans h'.outbox⟩

/-- Every change that a statement can make is an evolution of the tables. -/
theorem Evolves.apply (T : Tables) (w : Write) : Evolves T (T.apply w) := by
  have h := Evolves.refl T
  -- Each change touches one table, by an insertion or by an update that keeps what matters.
  cases w with
  | createBatch b => exact { h with batches := .insert Batch.Later.refl _ _ }
  | toggleBatchStatus id =>
    exact { h with batches := .modify Batch.Later.refl _ _ (by intro r; rfl) fun b => ⟨_, rfl⟩ }
  | createCode c => exact { h with codes := .insert Code.Later.refl _ _ }
  | toggleCodeStatus id =>
    exact { h with
      codes := .modify Code.Later.refl _ _ (by intro r; rfl) fun c => ⟨rfl, rfl, rfl, le_rfl⟩ }
  | incrementCodeUseCount id =>
    exact { h with
      codes := .modify Code.Later.refl _ _ (by intro r; rfl) fun c => ⟨rfl, rfl, rfl, by
        simp [Code.incrementUseCount]⟩ }
  | createCredential c | markCredentialUsed id r | deleteCredential id => exact { h with }
  | createIdempotencyKey k => exact { h with keys := .insert IdempotencyKey.Later.refl _ _ }
  | setIdempotencyResponse k body =>
    exact { h with
      keys := .modify IdempotencyKey.Later.refl _ _ (by intro r; rfl) fun k => .refl k }
  | createRedemption r => exact { h with redemptions := .insert Redemption.Later.refl _ _ }
  | updateRedemptionWebhookStatus id report =>
    exact { h with
      redemptions := .modify Redemption.Later.refl _ _ (by intro r; rfl) fun r =>
        ⟨_, _, _, _, rfl⟩ }
  | prepareRedemptionWebhookResend id event =>
    exact { h with
      redemptions := .modify Redemption.Later.refl _ _ (by intro r; rfl) fun r =>
        ⟨_, _, _, _, rfl⟩ }
  | createWebhookOutboxEvent o => exact { h with outbox := .insert WebhookOutbox.Later.refl _ _ }
  | leaseWebhookOutboxEvent id token expires | updateWebhookOutbox id report =>
    exact { h with
      outbox := .modify WebhookOutbox.Later.refl _ _ (by intro r; rfl) fun o => ⟨rfl, rfl, rfl⟩ }

/-- A list of changes is an evolution. -/
theorem Evolves.applyAll (T : Tables) (ws : List Write) : Evolves T (postgres.applyAll T ws) := by
  induction ws generalizing T with
  | nil => exact Evolves.refl T
  | cons w ws ih => exact (Evolves.apply T w).trans (ih _)

end CdkSystem
