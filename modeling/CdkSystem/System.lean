import CdkSystem.Admin
import CdkSystem.BatchRedeem
import CdkSystem.Webhook

/-!
# The system

Any number of calls of the service run interleaved on one database: redemptions, batch redemptions,
the handlers of the administration, and workers that deliver webhooks.

A call is a program, and a start gives every caller its call, the tables and the clock. `Start.run`
follows a list of actions, which says who goes on and what the outside world answers; there is no
other source of nondeterminism, so runs on concrete tables are evaluated by `decide`. Operations
fail, time passes and programs die by actions of their own.
-/

namespace CdkSystem

open RowLock Relational

/-- The calls of the service: the requests that come in, and the workers that deliver events. -/
inductive Call where
  | redeem (req : RedeemRequest)
  | batchRedeem (req : BatchRedeemRequest)
  | createBatch (req : CreateBatchRequest) (draws : List (Fin 31))
  | toggleBatch (id : ℕ)
  | toggleCode (id : ℕ)
  | resendWebhook (id : ℕ)
  | importCredentials (items : List CredentialItem)
  | deleteCredential (id : ℕ)
  | batchDeleteCredentials (ids : List ℕ)
  | worker (turns : ℕ)

/-- What the calls return, as far as their callers look at it. -/
inductive Result where
  | redeem (r : Except GoError RedeemResponse)
  | batchRedeem (r : Except GoError BatchRedeemResponse)
  | reply (r : Reply)
  | imported (r : Except GoError ℕ)
  | worker

/-- The response of a redemption, where the call was one and has returned without an error. -/
def Result.response? : Result → Option RedeemResponse
  | .redeem (.ok resp) => some resp
  | _ => none

/-- Only redemptions without an error have a response. -/
theorem Result.response?_eq_some {r : Result} {resp : RedeemResponse}
    (h : r.response? = some resp) :
    r = .redeem (.ok resp) := by
  match r, h with
  | .redeem (.ok resp'), h => rw [Option.some.inj h]

/-- The program of a call: the function that serves it, with its result as what the call returns. -/
def callProgram (rt : Runtime) : Call → M Result
  | .redeem req => (redeem rt req).run >>= fun r => .ret (.redeem r)
  | .batchRedeem req => (batchRedeem rt req).run >>= fun r => .ret (.batchRedeem r)
  | .createBatch req draws => createBatchHandler rt req draws >>= fun r => .ret (.reply r)
  | .toggleBatch id => toggleBatch id >>= fun r => .ret (.reply r)
  | .toggleCode id => toggleCode id >>= fun r => .ret (.reply r)
  | .resendWebhook id => resendWebhook id >>= fun r => .ret (.reply r)
  | .importCredentials items => (importCredentials items).run >>= fun r => .ret (.imported r)
  | .deleteCredential id => deleteCredential id >>= fun r => .ret (.reply r)
  | .batchDeleteCredentials ids => batchDeleteCredentials ids >>= fun r => .ret (.reply r)
  | .worker turns => processBatch rt turns >>= fun _ => .ret .worker

/-- The state of the database when the calls `ι` run. -/
abbrev Database (ι : Type) := Db ι Slot Tables Seqs Write Lock

/-- The states of the system when the calls `ι` run. -/
abbrev State (ι : Type) := Sys ι Slot Tables Seqs Write Lock Query Env Query.Ans Env.Ans Result

/-- All rows have `id`s below their sequences. -/
structure Tables.Below (q : Seqs) (T : Tables) : Prop where
  batches : ∀ b ∈ T.batches, b.id < q.batches
  codes : ∀ c ∈ T.codes, c.id < q.codes
  credentials : ∀ c ∈ T.credentials, c.id < q.credentials
  redemptions : ∀ r ∈ T.redemptions, r.id < q.redemptions
  outbox : ∀ o ∈ T.outbox, o.id < q.outbox

/-- The constraints of the schema: `CHECK` on batches, `UNIQUE` and foreign keys. -/
structure Tables.Integrity (T : Tables) : Prop where
  batch : ∀ b ∈ T.batches, b.Valid
  codeBatch : ∀ c ∈ T.codes, ∃ b, T.batches.get? c.batchId = some b
  codeText : ∀ c ∈ T.codes, ∀ c' ∈ T.codes, c.code = c'.code → c = c'
  redemptionCode : ∀ r ∈ T.redemptions, ∀ id, r.codeId = some id → ∃ c, T.codes.get? id = some c
  redemptionKey : ∀ r ∈ T.redemptions, ∀ k, r.idempotencyKey = some k →
    ∃ row, T.keys.get? k = some row
  redemptionEvent : ∀ r ∈ T.redemptions, ∀ r' ∈ T.redemptions, ∀ event,
    r.eventId = some event → r'.eventId = some event → r = r'
  outboxRedemption : ∀ o ∈ T.outbox, ∃ r, T.redemptions.get? o.redemptionId = some r
  outboxEvent : ∀ o ∈ T.outbox, ∀ o' ∈ T.outbox, o.eventId = o'.eventId → o = o'

instance (q : Seqs) (T : Tables) : Decidable (T.Below q) :=
  decidable_of_iff
    ((∀ b ∈ T.batches.rows, b.id < q.batches) ∧ (∀ c ∈ T.codes.rows, c.id < q.codes) ∧
      (∀ c ∈ T.credentials.rows, c.id < q.credentials) ∧
      (∀ r ∈ T.redemptions.rows, r.id < q.redemptions) ∧ ∀ o ∈ T.outbox.rows, o.id < q.outbox)
    ⟨fun ⟨h1, h2, h3, h4, h5⟩ => ⟨h1, h2, h3, h4, h5⟩,
      fun ⟨h1, h2, h3, h4, h5⟩ => ⟨h1, h2, h3, h4, h5⟩⟩

/-- The constraints of the schema as a computation on the rows. -/
def Tables.checkIntegrity (T : Tables) : Bool :=
  T.batches.rows.all (fun b => decide b.Valid) &&
    T.codes.rows.all (fun c => (T.batches.get? c.batchId).isSome &&
      T.codes.rows.all fun c' => c.code ≠ c'.code || c.id = c'.id) &&
    T.redemptions.rows.all (fun r => (r.codeId.all fun id => (T.codes.get? id).isSome) &&
      (r.idempotencyKey.all fun k => (T.keys.get? k).isSome) &&
      T.redemptions.rows.all fun r' =>
        r.eventId = none || r.eventId ≠ r'.eventId || r.id = r'.id) &&
    T.outbox.rows.all fun o => (T.redemptions.get? o.redemptionId).isSome &&
      T.outbox.rows.all fun o' => o.eventId ≠ o'.eventId || o.id = o'.id

/-- The constraints hold when the computation says so. -/
theorem Tables.integrity_of_check {T : Tables} (h : T.checkIntegrity = true) : T.Integrity := by
  simp only [checkIntegrity, Bool.and_eq_true, List.all_eq_true, decide_eq_true_eq,
    Option.isSome_iff_exists, Bool.or_eq_true, ne_eq, decide_not, Bool.not_eq_true',
    decide_eq_false_iff_not] at h
  obtain ⟨⟨⟨hb, hc⟩, hr⟩, ho⟩ := h
  refine ⟨hb, fun c hm => (hc c hm).1, fun c hm c' hm' he => ?_, fun r hm id hid => ?_,
    fun r hm k hk => ?_, fun r hm r' hm' event he he' => ?_, fun o hm => (ho o hm).1,
    fun o hm o' hm' he => ?_⟩
  · exact Table.key_injective hm hm' (((hc c hm).2 c' hm').resolve_left (not_not_intro he))
  · have := (hr r hm).1.1
    rw [hid, Option.all_some, Option.isSome_iff_exists] at this
    exact this
  · have := (hr r hm).1.2
    rw [hk, Option.all_some, Option.isSome_iff_exists] at this
    exact this
  · rcases (hr r hm).2 r' hm' with (h | h) | h
    · rw [he] at h
      cases h
    · exact absurd (he.trans he'.symm) h
    · exact Table.key_injective hm hm' h
  · exact Table.key_injective hm hm' (((ho o hm).2 o' hm').resolve_left (not_not_intro he))

/-- What a run starts from: the calls, tables that satisfy the constraints, the sequences, the clock
and the pool. -/
structure Start (ι : Type) where
  rt : Runtime
  calls : ι → Call
  tables : Tables
  seq : Seqs
  clock : Time
  connections : ℕ
  /-- The rows have taken their `id`s from the sequences. -/
  below : tables.Below seq
  /-- The tables satisfy the constraints. -/
  integrity : tables.Integrity

/-- A start of some calls from some tables, at time zero and with ten connections. -/
def Start.of {ι : Type} (calls : ι → Call) (tables : Tables) (seq : Seqs)
    (below : tables.Below seq) (check : tables.checkIntegrity = true) : Start ι :=
  ⟨.simple, calls, tables, seq, 0, 10, below, Tables.integrity_of_check check⟩

/-- Tables without rows, from which a service can be started. -/
def Tables.empty : Tables := ⟨∅, ∅, ∅, ∅, ∅, ∅⟩

/-- Without rows there are no `id`s, so the sequences are above all of them. -/
theorem Tables.empty_below : Tables.empty.Below ⟨0, 0, 0, 0, 0⟩ := by decide

/-- Tables without rows satisfy the constraints of the schema. -/
theorem Tables.checkIntegrity_empty : Tables.empty.checkIntegrity = true := by decide

/-- The state in which no call has begun. -/
def Start.state {ι : Type} (start : Start ι) : State ι where
  db :=
    { tables := start.tables
      seq := start.seq
      clock := start.clock
      free := start.connections
      owner := fun _ => none
      txs := fun _ _ => none
      log := []
      failed := fun _ => false }
  progs i := some (callProgram start.rt (start.calls i))

/-- The state after a run, if all of its steps are enabled. -/
def Start.run {ι : Type} [DecidableEq ι] (start : Start ι) (as : List (Action ι Choice)) :
    Option (State ι) :=
  start.state.run postgres as

/-- What a call has returned after a run. -/
def Start.result? {ι : Type} [DecidableEq ι] (start : Start ι) (as : List (Action ι Choice))
    (i : ι) : Option Result :=
  match (start.run as).bind fun s => s.progs i with
  | some (.ret r) => some r
  | _ => none

/-- The state in which a call has returned. -/
theorem Start.result?_eq_some {ι : Type} [DecidableEq ι] {start : Start ι}
    {as : List (Action ι Choice)} {i : ι} {r : Result} (h : start.result? as i = some r) :
    ∃ s, start.run as = some s ∧ s.progs i = some (.ret r) := by
  unfold result? at h
  split at h
  · rename_i r' hr'
    obtain ⟨s, hs, hp⟩ := Option.bind_eq_some_iff.mp hr'
    obtain rfl := Option.some.inj h
    exact ⟨s, hs, hp⟩
  · cases h

end CdkSystem
