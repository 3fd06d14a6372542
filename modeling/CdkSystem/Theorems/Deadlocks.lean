import CdkSystem.Proof.Ordering
import CdkSystem.Theorems.RedeemEffects

/-!
# Redemptions and the connections of the pool

A batch that has an idempotency key holds one connection for the key and needs another one for each
of its codes. The calls whose key is a key of a batch are the contenders: each of them can hold a
connection while it waits. With more connections than contenders every state of every run can be
completed (`redemptions_complete`); with as many connections as contenders, or fewer, the calls can
block each other for good (`deadlock_iff`).

For the first half, the locks are ranked as redemptions ask for them, so some call among those that
wait for a lock can always go on, unless all wait for connections. For the second half a run is
constructed: the contenders begin one after another until no connection is left, one batch for each
key claims it, and the others wait for it (`Start.Jam`); then no batch gets the connection that its
next code needs.
-/

namespace CdkSystem

open RowLock Relational

/-- The idempotency key of a redemption; it is empty when there is none. -/
def Call.key : Call → String
  | .redeem req => req.idempotencyKey
  | .batchRedeem req => req.idempotencyKey
  | _ => ""

/-- The idempotency key of a batch redemption. -/
def Call.batchKey : Call → String
  | .batchRedeem req => req.idempotencyKey
  | _ => ""

variable {ι : Type} [Fintype ι]

/-- Whether a key is the key of a batch. -/
def Start.batchKey (start : Start ι) (key : String) : Bool :=
  key ≠ "" && decide (∃ i, (start.calls i).batchKey = key)

/-- The calls whose key is the key of a batch. -/
def Start.contenders (start : Start ι) : Finset ι :=
  Finset.univ.filter fun i => start.batchKey (start.calls i).key

variable [DecidableEq ι] {start : Start ι} {as : List (Action ι Choice)} {s : State ι} {i : ι}

/-! ## Enough connections -/

instance : Nonempty Choice := ⟨⟨0, "", .unsent⟩⟩

/-- A query that skips locked rows can pick one of the others, if there is one. -/
theorem exists_skipLocked {R A : Type} [HasKey R ℕ] (ctx : Ctx Tables Seqs Lock) (t : Table R)
    (p : R → Bool) (lock : ℕ → Lock) (none' : A) (found : R → Effect Seqs Write Lock A) :
    ∃ pick, (skipLocked ctx t p lock pick none' found).isSome = true := by
  unfold skipLocked
  cases hrows : t.rows.filter fun r => p r && !ctx.busy (lock (key r)) with
  | nil => exact ⟨0, rfl⟩
  | cons r rows =>
    refine ⟨key r, ?_⟩
    simp

/-- Every query has an effect or fails, whatever is locked. -/
theorem exists_exec (ctx : Ctx Tables Seqs Lock) (q : Query) :
    ∃ c, (postgres.exec ctx q c).isSome = true := by
  cases q with
  | leaseWebhookOutboxEvent token =>
    obtain ⟨pick, h⟩ := exists_skipLocked ctx ctx.view.outbox (fun o => o.due ctx.now) .outbox none
      fun o => ⟨some (o.lease token (ctx.now + leaseTime)),
        [.leaseWebhookOutboxEvent o.id token (ctx.now + leaseTime)], [.outbox o.id], ctx.seq⟩
    exact ⟨⟨pick, "", .unsent⟩, h⟩
  | getUnusedCredential plan =>
    obtain ⟨pick, h⟩ := exists_skipLocked ctx ctx.view.credentials
      (fun r => r.available ctx.now plan) .credential none
      fun r => ⟨some r, [], [.credential r.id], ctx.seq⟩
    exact ⟨⟨pick, "", .unsent⟩, h⟩
  | getBatchByID | getCodeByCode | getRedemptionByID | countAvailableCredentialsByPlan =>
    exact ⟨⟨0, "", .unsent⟩, rfl⟩
  | createBatch | toggleBatchStatus | createCodes | getCodeByCodeForUpdate | toggleCodeStatus
  | incrementCodeUseCount | createIdempotencyKey | lockIdempotencyKeyByKey | setIdempotencyResponse
  | createRedemption | updateRedemptionWebhookStatus | prepareRedemptionWebhookResend
  | createWebhookOutboxEvent | updateWebhookOutbox | createCredential | deleteCredential
  | markCredentialUsed =>
    refine ⟨⟨0, "", .unsent⟩, ?_⟩
    simp only [postgres, Query.exec]
    repeat' split
    all_goals rfl

/-- How many connections a call holds while it waits for a connection or for the key of a batch. -/
def Start.waiting (start : Start ι) (i : ι) : ℕ := if i ∈ start.contenders then 1 else 0

omit [DecidableEq ι] in
/-- The program of a redemption takes its locks in order. -/
theorem Start.orderly [DecidableEq ι] (hcall : (start.calls i).Redeems) :
    RowLock.Orderly postgres (lockRank start.batchKey) (start.waiting i)
      (fun _ held' => held' = .nothing) .nothing (callProgram start.rt (start.calls i)) := by
  have hbelow : (Holding.nothing : Holding Slot Lock).Below (lockRank start.batchKey) 1 :=
    fun t ls h => nomatch h
  have hwaiting : start.batchKey (start.calls i).key = true → 1 ≤ start.waiting i := by
    intro h
    have hmem : i ∈ start.contenders := by simp [Start.contenders, h]
    rw [Start.waiting, if_pos hmem]
  -- The two kinds of redemptions ask for their locks in the order of the ranks.
  cases hc : start.calls i with
  | redeem req =>
    rw [hc] at hwaiting
    have h : (redeem start.rt req).Keeps start.batchKey (start.waiting i) .nothing :=
      redeem_orderly rfl hbelow (by simp [Holding.nothing_connections]) fun _ => ⟨rfl, hwaiting⟩
    rw [callProgram]
    generalize redeem start.rt req = x at h ⊢
    exact RowLock.Orderly.bind (h.orderly.mono fun _ _ hr => hr)
  | batchRedeem req =>
    rw [hc] at hwaiting
    have h : (batchRedeem start.rt req).Keeps start.batchKey (start.waiting i) .nothing := by
      refine batchRedeem_orderly fun hne => ?_
      have hkey : start.batchKey req.idempotencyKey = true := by
        simp only [Start.batchKey, Bool.and_eq_true, decide_eq_true_eq]
        exact ⟨hne, i, by rw [hc]; rfl⟩
      exact ⟨hkey, hwaiting hkey⟩
    rw [callProgram]
    generalize batchRedeem start.rt req = x at h ⊢
    exact RowLock.Orderly.bind (h.orderly.mono fun _ _ hr => hr)
  | createBatch | toggleBatch | toggleCode | resendWebhook | importCredentials | deleteCredential
  | batchDeleteCredentials | worker =>
    rw [hc] at hcall
    exact hcall.elim

/-- In every state of a run, redemptions take their locks in order. -/
theorem Start.ordered (hcalls : ∀ i, (start.calls i).Redeems) (h : start.run as = some s) :
    s.Ordered postgres (lockRank start.batchKey) start.waiting start.connections := by
  have hstart : start.state.Ordered postgres (lockRank start.batchKey) start.waiting
      start.connections := by
    refine ⟨?_, fun i hi => (nomatch hi), fun i p hp => ?_⟩
    · simp [Start.state, Db.pool, Db.opened]
    · have hheld : start.state.db.Holds i .nothing :=
        ⟨fun _ => rfl, fun t l => by simp [Start.state, Holding.nothing]⟩
      exact ⟨.nothing, hheld, Option.some.inj hp ▸ start.orderly (hcalls i)⟩
  exact hstart.run h

omit [DecidableEq ι] in
/-- All contenders together wait for as many connections as they are, one each. -/
theorem Start.sum_waiting [DecidableEq ι] : ∑ i, start.waiting i = start.contenders.card := by
  simp [Start.waiting]

/-- With more connections than contenders, redemptions can be completed from every state that a run
leads to, whatever has failed or died before, and without that anything else fails. -/
theorem redemptions_complete (hcalls : ∀ i, (start.calls i).Redeems)
    (hpool : start.contenders.card < start.connections) (h : start.run as = some s) :
    ∃ as' s', (∀ act ∈ as', ∃ i c, act = Action.exec i c) ∧ start.run (as ++ as') = some s' ∧
      ∀ i, s'.progs i = none ∨ ∃ r, s'.progs i = some (.ret r) := by
  have hN : ∑ i, start.waiting i < start.connections := by rwa [Start.sum_waiting]
  obtain ⟨as', s', has', hrun, hfinished⟩ := (Start.ordered hcalls h).completes exists_exec hN
  refine ⟨as', s', has', ?_, fun i => ?_⟩
  · unfold Start.run at h ⊢
    rw [Sys.run_append, h, Option.bind_some, hrun]
  · cases hp : s'.progs i with
    | none => exact Or.inl rfl
    | some p =>
      cases p with
      | ret r => exact Or.inr ⟨r, rfl⟩
      | op o k => exact absurd hp (hfinished i o k)

/-! ## Too few connections -/

/-- The transaction that holds the key of a call. -/
def Call.keySlot : Call → Slot
  | .batchRedeem _ => .idempotencyTx
  | _ => .tx

/-- A call whose input is accepted, whose key can be stored and is new, and which, if it is a batch,
has a code that is redeemed. -/
def Call.Fresh (T : Tables) : Call → Prop
  | .redeem req => checkInput req.trimmed (normalizeCode req.code) = none ∧
      validKey req.idempotencyKey = true ∧ T.keys.get? req.idempotencyKey = none
  | .batchRedeem req => checkBatchInput req.trimmed = none ∧
      (∃ code ∈ req.codes, itemError [] (normalizeCode code) = none) ∧
      validKey req.idempotencyKey = true ∧ T.keys.get? req.idempotencyKey = none
  | _ => False

/-- The key of such a call is new. -/
theorem Call.Fresh.key {T : Tables} {call : Call} (h : call.Fresh T) :
    validKey call.key = true ∧ T.keys.get? call.key = none := by
  cases call with
  | redeem req => exact h.2
  | batchRedeem req => exact h.2.2
  | createBatch | toggleBatch | toggleCode | resendWebhook | importCredentials | deleteCredential
  | batchDeleteCredentials | worker => exact h.elim

/-- The key of such a call is not empty. -/
theorem Call.Fresh.key_ne {T : Tables} {call : Call} (h : call.Fresh T) : call.key ≠ "" := by
  intro he
  have hvalid := h.key.1
  rw [he] at hvalid
  exact absurd hvalid (by decide)

/-- The key of a batch is its key. -/
theorem Call.key_of_batchKey {call : Call} (h : call.batchKey ≠ "") : call.key = call.batchKey := by
  cases call with
  | batchRedeem req => rfl
  | redeem | createBatch | toggleBatch | toggleCode | resendWebhook | importCredentials
  | deleteCredential | batchDeleteCredentials | worker => exact absurd rfl h

/-- A code that is redeemed opens a transaction. -/
theorem redeemItem_begins {R : Type} {rt : Runtime} {req : BatchRedeemRequest} {code : String}
    (hinput : checkBatchInput req.trimmed = none) (hcode : itemError [] (normalizeCode code) = none)
    (K : Except GoError (List String × BatchRedeemItem) → M R) :
    ∃ k, ((redeemItem rt req.trimmed [] code).run >>= K) = .op (.begin .tx) k := by
  -- The checks of the batch and of its item are those of the redemption, made before.
  have hok : checkInput (req.trimmed.item code).trimmed (normalizeCode code) = none := by
    have htrim : trimSpace (trimSpace req.userID) = trimSpace req.userID :=
      trimFunc_trimFunc (fun _ h => h) req.userID
    have hnone : ∀ {p : Prop} [Decidable p] {A : Type} {a : A} {o : Option A},
        (if p then some a else o) = none → ¬ p ∧ o = none := by
      intro p _ A a o h
      by_cases hp : p
      · rw [if_pos hp] at h
        cases h
      · rw [if_neg hp] at h
        exact ⟨hp, h⟩
    obtain ⟨huser, hinput⟩ := hnone hinput
    obtain ⟨hlong, -⟩ := hnone hinput
    obtain ⟨hempty, hcode⟩ := hnone hcode
    obtain ⟨hsize, -⟩ := hnone hcode
    unfold checkInput
    simp only [BatchRedeemRequest.trimmed, BatchRedeemRequest.item, RedeemRequest.trimmed, htrim]
      at huser hlong ⊢
    rw [if_neg (not_or.mpr ⟨huser, hempty⟩), if_neg hlong, if_neg hsize, if_neg (by decide)]
  have hcode' : (req.trimmed.item code).code = code := rfl
  rw [redeemItem, hcode]
  dsimp only
  rw [Go.run_bind, Go.run_withContext, redeem, hcode', hok]
  dsimp only
  rw [Go.run_bind, Go.run_begin]
  exact ⟨_, rfl⟩

/-- The loop over codes of which one is redeemed opens a transaction first. -/
theorem redeemCodes_begins {R : Type} {rt : Runtime} {req : BatchRedeemRequest}
    (hinput : checkBatchInput req.trimmed = none) (codes : List String)
    (hcode : ∃ code ∈ codes, itemError [] (normalizeCode code) = none) (resp : BatchRedeemResponse)
    (K : Except GoError BatchRedeemResponse → M R) :
    ∃ k, ((redeemCodes rt req.trimmed [] resp codes).run >>= K) = .op (.begin .tx) k := by
  induction codes generalizing resp with
  | nil => simp at hcode
  | cons code codes ih =>
    rw [redeemCodes, Go.run_bind]
    by_cases h : itemError [] (normalizeCode code) = none
    · exact redeemItem_begins hinput h _
    · obtain ⟨message, hmessage⟩ := Option.ne_none_iff_exists'.mp h
      obtain ⟨code', hmem, hcode'⟩ := hcode
      have hrest : code' ∈ codes := (List.mem_cons.mp hmem).resolve_left fun he => h (he ▸ hcode')
      rw [redeemItem, hmessage]
      exact ih ⟨code', hrest, hcode'⟩ _

/-- The loop over any codes opens a transaction first, or does nothing. -/
theorem redeemCodes_begins_or {R : Type} {rt : Runtime} {req : BatchRedeemRequest}
    (hinput : checkBatchInput req.trimmed = none) (codes : List String) (resp : BatchRedeemResponse)
    (K : Except GoError BatchRedeemResponse → M R) :
    (∃ resp', ((redeemCodes rt req.trimmed [] resp codes).run >>= K) = K (.ok resp')) ∨
      ∃ k, ((redeemCodes rt req.trimmed [] resp codes).run >>= K) = .op (.begin .tx) k := by
  by_cases h : ∃ code ∈ codes, itemError [] (normalizeCode code) = none
  · exact Or.inr (redeemCodes_begins hinput codes h resp K)
  · push Not at h
    refine Or.inl ?_
    induction codes generalizing resp with
    | nil => exact ⟨resp, rfl⟩
    | cons code codes ih =>
      obtain ⟨message, hmessage⟩ := Option.ne_none_iff_exists'.mp (h code List.mem_cons_self)
      rw [redeemCodes, Go.run_bind, redeemItem, hmessage]
      exact ih _ fun code' hmem => h code' (List.mem_cons_of_mem _ hmem)

/-- Claiming a key inserts it first, and goes on if that succeeds. -/
theorem claimKey_inserts {α R : Type} {t : Slot} {create lock unmarshal key : String}
    {hash : List UInt8} {decode : Json → Option α} (K : Except GoError (Option α) → M R) :
    ∃ k, ((claimKey t create lock unmarshal key hash decode).run >>= K) =
        .op (.query t (.createIdempotencyKey key hash)) k ∧
      ∀ row, k (.ok (some row)) = K (.ok none) := by
  rw [claimKey, Go.run_bind, Go.run_query]
  exact ⟨_, rfl, fun row => rfl⟩

/-- The program of a call with a new key: it opens a transaction and inserts its key; a batch then
opens another transaction. -/
def Claims (call : Call) (p : M Result) : Prop :=
  ∃ hash k, p = .op (.query call.keySlot (.createIdempotencyKey call.key hash)) k ∧
    (call.batchKey ≠ "" → ∀ row, ∃ k', k (.ok (some row)) = .op (.begin .tx) k')

/-- A call with a new key opens a transaction in which it inserts the key. -/
theorem Call.Fresh.opens {T : Tables} {call : Call} (rt : Runtime) (h : call.Fresh T) :
    ∃ k, callProgram rt call = .op (.begin call.keySlot) k ∧ Claims call (k (.ok ())) := by
  have hne := h.key_ne
  cases call with
  | redeem req =>
    change req.trimmed.idempotencyKey ≠ "" at hne
    rw [callProgram, CdkSystem.redeem, h.1]
    dsimp only
    rw [Go.run_bind, Go.run_begin]
    refine ⟨_, rfl, ?_⟩
    dsimp only
    -- With a key, the first statement of the transaction is the one that inserts it.
    rw [Go.run_deferRollback, redeemTx, if_neg hne, Go.run_bind, handleIdempotency]
    obtain ⟨k, hk, -⟩ := claimKey_inserts _
    rw [hk]
    exact ⟨_, k, rfl, fun hbatch => absurd rfl hbatch⟩
  | batchRedeem req =>
    change req.idempotencyKey ≠ "" at hne
    rw [callProgram, CdkSystem.batchRedeem, h.1]
    dsimp only
    rw [if_neg hne, Go.run_bind, Go.run_begin]
    refine ⟨_, rfl, ?_⟩
    dsimp only
    rw [Go.run_deferRollback, batchRedeemTx, Go.run_bind, handleBatchIdempotency]
    obtain ⟨k, hk, hrow⟩ := claimKey_inserts _
    rw [hk]
    -- A batch whose key is new goes on to its first code, for which it begins a transaction.
    refine ⟨_, k, rfl, fun _ row => ?_⟩
    rw [hrow]
    dsimp only
    rw [Go.run_bind]
    exact redeemCodes_begins h.1 _ h.2.1 _ _
  | createBatch | toggleBatch | toggleCode | resendWebhook | importCredentials | deleteCredential
  | batchDeleteCredentials | worker => exact h.elim

/-- A redemption opens a transaction first, if it does anything. -/
theorem Call.Redeems.begins {call : Call} (rt : Runtime) (h : call.Redeems) :
    (∃ r, callProgram rt call = .ret r) ∨ ∃ t k, callProgram rt call = .op (.begin t) k := by
  cases call with
  | redeem req =>
    rw [callProgram, CdkSystem.redeem]
    cases checkInput req.trimmed (normalizeCode req.code) with
    | some resp => exact Or.inl ⟨_, rfl⟩
    | none =>
      dsimp only
      rw [Go.run_bind, Go.run_begin]
      exact Or.inr ⟨_, _, rfl⟩
  | batchRedeem req =>
    rw [callProgram, CdkSystem.batchRedeem]
    cases hinput : checkBatchInput req.trimmed with
    | some resp => exact Or.inl ⟨_, rfl⟩
    | none =>
      dsimp only
      by_cases hkey : req.idempotencyKey = ""
      · rw [if_pos hkey]
        rcases redeemCodes_begins_or hinput req.codes _ _ with ⟨r, hr⟩ | ⟨k, hk⟩
        · exact Or.inl ⟨_, hr⟩
        · exact Or.inr ⟨.tx, k, hk⟩
      · rw [if_neg hkey, Go.run_bind, Go.run_begin]
        exact Or.inr ⟨_, _, rfl⟩
  | createBatch | toggleBatch | toggleCode | resendWebhook | importCredentials | deleteCredential
  | batchDeleteCredentials | worker => exact h.elim

/-- The calls `begun` have opened their transactions, and `holders`, which are batches with
different keys, have inserted their keys and are about to open another transaction. -/
structure Start.Jam (start : Start ι) (begun holders : List ι) (s : State ι) : Prop where
  free : s.db.free + begun.length = start.connections
  tables : s.db.tables = start.tables
  closed : ∀ i ∉ begun, ∀ t, s.db.txs i t = none
  opened : ∀ i ∈ begun, i ∉ holders →
    s.db.txs i (start.calls i).keySlot = some ⟨start.clock, [], false⟩
  free_key : ∀ key, (∀ j ∈ holders, (start.calls j).key ≠ key) → s.db.owner (.key key) = none
  held_key : ∀ j ∈ holders,
    s.db.owner (.key (start.calls j).key) = some (j, (start.calls j).keySlot)
  clock : s.db.clock = start.clock
  initial : ∀ i ∉ begun, s.progs i = some (callProgram start.rt (start.calls i))
  claims : ∀ i ∈ begun, i ∉ holders → ∃ p, s.progs i = some p ∧ Claims (start.calls i) p
  waits : ∀ j ∈ holders, ∃ k, s.progs j = some (.op (.begin .tx) k)

namespace Start.Jam

omit [Fintype ι]

variable {begun holders : List ι}

omit [DecidableEq ι] in
/-- At the start no call has begun, and no key has an owner. -/
theorem initially : start.Jam [] [] start.state := by
  constructor <;> simp [Start.state]

/-- Another call opens its transaction, and takes a connection of the pool for it. -/
theorem begin (h : start.Jam begun [] s) (hi : i ∉ begun) (hfree : s.db.free ≠ 0)
    (hfresh : (start.calls i).Fresh start.tables) (c : Choice) :
    ∃ s', s.step postgres (.exec i c) = some s' ∧ start.Jam (i :: begun) [] s' := by
  obtain ⟨k, hk, hclaims⟩ := hfresh.opens start.rt
  have hp := h.initial i hi
  rw [hk] at hp
  have hclosed := h.closed i hi (start.calls i).keySlot
  have hperform : s.db.perform postgres i (.begin (start.calls i).keySlot) c =
      some (.ok (), { s.db.setTx i (start.calls i).keySlot ⟨s.db.clock, [], false⟩ with
        free := s.db.free - 1 }) := by
    rw [Db.perform, if_neg (by simp [hfree, hclosed])]
  refine ⟨s.resume i { s.db.setTx i (start.calls i).keySlot ⟨s.db.clock, [], false⟩ with
    free := s.db.free - 1 } (some (k (.ok ()))), ?_, ?_⟩
  · simp only [Sys.step, hp, hperform, Option.map_some]
  constructor
  · -- One connection less is free, and one call more has begun.
    have := h.free
    simp only [Sys.resume, List.length_cons]
    omega
  · exact h.tables
  · intro j hj t
    rw [List.mem_cons, not_or] at hj
    simpa [Sys.resume, Db.setTx, hj.1] using h.closed j hj.2 t
  · intro j hj _
    by_cases hji : j = i
    · simp [Sys.resume, Db.setTx, hji, h.clock]
    · have hmem := (List.mem_cons.mp hj).resolve_left hji
      simpa [Sys.resume, Db.setTx, hji] using h.opened j hmem (by simp)
  · exact h.free_key
  · exact h.held_key
  · exact h.clock
  · intro j hj
    rw [List.mem_cons, not_or] at hj
    simpa [Sys.resume, hj.1] using h.initial j hj.2
  · -- The call itself is about to claim its key; the others are where they were.
    intro j hj _
    by_cases hji : j = i
    · subst hji
      exact ⟨_, by simp [Sys.resume], hclaims⟩
    · have hmem := (List.mem_cons.mp hj).resolve_left hji
      simpa [Sys.resume, hji] using h.claims j hmem (by simp)
  · simp

/-- Another batch inserts its key, and goes on to its first code. -/
theorem claim (h : start.Jam begun holders s) (hi : i ∈ begun) (hnew : i ∉ holders)
    (hkeys : ∀ j ∈ holders, (start.calls j).key ≠ (start.calls i).key)
    (hbatch : (start.calls i).batchKey ≠ "") (hfresh : (start.calls i).Fresh start.tables)
    (c : Choice) :
    ∃ s', s.step postgres (.exec i c) = some s' ∧ start.Jam begun (i :: holders) s' := by
  obtain ⟨p, hp, hash, k, rfl, hk⟩ := h.claims i hi hnew
  obtain ⟨hvalid, hnone⟩ := hfresh.key
  obtain ⟨k', hk'⟩ := hk hbatch ⟨(start.calls i).key, hash, none⟩
  have hopen := h.opened i hi hnew
  have hfreeKey := h.free_key _ hkeys
  have hbusy : s.db.busy (some (i, (start.calls i).keySlot))
      (.key (start.calls i).key) = false := by
    simp [Db.busy, hfreeKey]
  -- The effect of the insertion.
  obtain ⟨e, hexec, hlocks, hans⟩ : ∃ e, postgres.exec
      ⟨start.clock, s.db.seq, postgres.applyAll s.db.tables [],
        s.db.busy (some (i, (start.calls i).keySlot))⟩
      (.createIdempotencyKey (start.calls i).key hash) c = some (.ok e) ∧
      e.locks = [.key (start.calls i).key] ∧ e.ans = some ⟨(start.calls i).key, hash, none⟩ := by
    refine ⟨⟨some ⟨(start.calls i).key, hash, none⟩,
      [.createIdempotencyKey ⟨(start.calls i).key, hash, none⟩], [.key (start.calls i).key],
      s.db.seq⟩, ?_, rfl, rfl⟩
    simp only [postgres, Query.exec, hvalid, if_true, Dbms.applyAll_nil, h.tables, hnone]
  have hperform : s.db.perform postgres i
      (.query (start.calls i).keySlot (.createIdempotencyKey (start.calls i).key hash)) c =
      some (.ok e.ans, s.db.grant i (start.calls i).keySlot ⟨start.clock, [], false⟩ e) := by
    simp only [Db.perform, hopen, Bool.false_eq_true, if_false, hexec, hlocks, List.any_cons,
      List.any_nil, hbusy, Bool.or_false]
  refine ⟨s.resume i (s.db.grant i (start.calls i).keySlot ⟨start.clock, [], false⟩ e)
    (some (k (.ok e.ans))), ?_, ?_⟩
  · simp only [Sys.step, hp, hperform, Option.map_some]
  rw [hans, hk']
  constructor
  · exact h.free
  · exact h.tables
  · intro j hj t
    have hji : j ≠ i := fun he => hj (he ▸ hi)
    simpa [Sys.resume, Db.grant, Db.setTx, hji] using h.closed j hj t
  · intro j hj hj'
    rw [List.mem_cons, not_or] at hj'
    simpa [Sys.resume, Db.grant, Db.setTx, hj'.1] using h.opened j hj hj'.2
  · intro key hkey
    have hself : (start.calls i).key ≠ key := hkey i List.mem_cons_self
    have hrest := h.free_key key fun j hj => hkey j (List.mem_cons_of_mem i hj)
    simpa [Sys.resume, Db.grant, Db.setTx, hlocks, hself.symm] using hrest
  · intro j hj
    by_cases hji : j = i
    · simp [Sys.resume, Db.grant, hlocks, hji]
    · have hmem := (List.mem_cons.mp hj).resolve_left hji
      simpa [Sys.resume, Db.grant, Db.setTx, hlocks, hkeys j hmem] using h.held_key j hmem
  · exact h.clock
  · intro j hj
    have hji : j ≠ i := fun he => hj (he ▸ hi)
    simpa [Sys.resume, hji] using h.initial j hj
  · intro j hj hj'
    rw [List.mem_cons, not_or] at hj'
    simpa [Sys.resume, hj'.1] using h.claims j hj hj'.2
  · intro j hj
    by_cases hji : j = i
    · exact ⟨k', by simp [Sys.resume, hji]⟩
    · have hmem := (List.mem_cons.mp hj).resolve_left hji
      simpa [Sys.resume, hji] using h.waits j hmem

/-- Calls with new keys can open their transactions one after the other. -/
theorem exists_begun (begun : List ι) (hnodup : begun.Nodup)
    (hlen : begun.length ≤ start.connections)
    (hfresh : ∀ i ∈ begun, (start.calls i).Fresh start.tables) :
    ∃ as s, start.run as = some s ∧ start.Jam begun [] s := by
  induction begun with
  | nil => exact ⟨[], start.state, rfl, initially⟩
  | cons i begun ih =>
    rw [List.nodup_cons] at hnodup
    rw [List.length_cons] at hlen
    obtain ⟨as, s, hs, hjam⟩ := ih hnodup.2 (by omega) fun j hj =>
      hfresh j (List.mem_cons_of_mem i hj)
    have hfree : s.db.free ≠ 0 := by
      have := hjam.free
      omega
    obtain ⟨s', hs', hjam'⟩ := hjam.begin hnodup.1 hfree (hfresh i List.mem_cons_self)
      ⟨0, "", .unsent⟩
    refine ⟨as ++ [.exec i ⟨0, "", .unsent⟩], s', ?_, hjam'⟩
    unfold Start.run at hs ⊢
    rw [Sys.run_snoc, hs, Option.bind_some, hs']

/-- Batches with different keys can insert their keys one after the other. -/
theorem exists_claimed (hs : start.run as = some s) (hjam : start.Jam begun [] s)
    (holders : List ι) (hnodup : (holders.map fun j => (start.calls j).key).Nodup)
    (hbatch : ∀ j ∈ holders, j ∈ begun ∧ (start.calls j).batchKey ≠ "" ∧
      (start.calls j).Fresh start.tables) :
    ∃ as s, start.run as = some s ∧ start.Jam begun holders s := by
  induction holders with
  | nil => exact ⟨as, s, hs, hjam⟩
  | cons i holders ih =>
    rw [List.map_cons, List.nodup_cons, List.mem_map] at hnodup
    obtain ⟨as₁, s₁, hs₁, hjam₁⟩ := ih hnodup.2 fun j hj => hbatch j (List.mem_cons_of_mem i hj)
    have hkeys : ∀ j ∈ holders, (start.calls j).key ≠ (start.calls i).key :=
      fun j hj he => hnodup.1 ⟨j, hj, he⟩
    have hnew : i ∉ holders := fun hi => hkeys i hi rfl
    obtain ⟨hi, hkey, hfresh⟩ := hbatch i List.mem_cons_self
    obtain ⟨s', hs', hjam'⟩ := hjam₁.claim hi hnew hkeys hkey hfresh ⟨0, "", .unsent⟩
    refine ⟨as₁ ++ [.exec i ⟨0, "", .unsent⟩], s', ?_, hjam'⟩
    unfold Start.run at hs₁ ⊢
    rw [Sys.run_snoc, hs₁, Option.bind_some, hs']

/-- When all connections are taken, and each call that has begun and holds no key waits for the key
of one that does, no call can go on. -/
theorem stuck (hjam : start.Jam begun holders s) (hfull : begun.length = start.connections)
    (hcalls : ∀ i, (start.calls i).Redeems)
    (hheld : ∀ i ∈ begun, i ∉ holders → (start.calls i).Fresh start.tables ∧
      ∃ j ∈ holders, (start.calls j).key = (start.calls i).key) (i : ι) (c : Choice) :
    s.step postgres (.exec i c) = none := by
  have hfree : s.db.free = 0 := by
    have := hjam.free
    omega
  have hbegin : ∀ t k, s.progs i = some (.op (.begin t) k) →
      s.step postgres (.exec i c) = none := by
    intro t k hp
    simp only [Sys.step, hp, Db.perform, hfree, true_or, if_true, Option.map_none]
  by_cases hi : i ∈ begun
  · -- A call that holds its key wants to begin a transaction, and no connection is free.
    by_cases hholder : i ∈ holders
    · obtain ⟨k, hp⟩ := hjam.waits i hholder
      exact hbegin .tx k hp
    · -- One that has begun without the key waits for the call that holds it.
      obtain ⟨hfresh, j, hj, hkey⟩ := hheld i hi hholder
      obtain ⟨p, hp, hash, k, rfl, -⟩ := hjam.claims i hi hholder
      obtain ⟨hvalid, hnone⟩ := hfresh.key
      have hopen := hjam.opened i hi hholder
      have hne : j ≠ i := fun he => hholder (he ▸ hj)
      have hbusy : s.db.busy (some (i, (start.calls i).keySlot))
          (.key (start.calls i).key) = true := by
        rw [Db.busy, ← hkey, hjam.held_key j hj]
        simp [hne]
      simp only [Sys.step, hp, Db.perform, hopen, Bool.false_eq_true, if_false, postgres,
        Query.exec, hvalid, if_true, Dbms.applyAll_nil, hjam.tables, hnone, List.any_cons, hbusy,
        Bool.true_or, Option.map_none]
  · -- One that has not begun needs a connection too, or has returned.
    have hp := hjam.initial i hi
    rcases (hcalls i).begins start.rt with ⟨r, hr⟩ | ⟨t, k, hk⟩
    · rw [hr] at hp
      simp only [Sys.step, hp]
    · rw [hk] at hp
      exact hbegin t k hp

omit [DecidableEq ι] in
/-- A call with a new key has not ended then. -/
theorem not_finished [DecidableEq ι] (hjam : start.Jam begun holders s)
    (hfresh : (start.calls i).Fresh start.tables) : ¬ s.Finished := by
  intro hfinished
  by_cases hi : i ∈ begun
  · by_cases hholder : i ∈ holders
    · obtain ⟨k, hp⟩ := hjam.waits i hholder
      exact hfinished i _ _ hp
    · obtain ⟨p, hp, hash, k, rfl, -⟩ := hjam.claims i hi hholder
      exact hfinished i _ _ hp
  · obtain ⟨k, hk, -⟩ := hfresh.opens start.rt
    have hp := hjam.initial i hi
    rw [hk] at hp
    exact hfinished i _ _ hp

end Start.Jam

/-- With at most as many connections as contenders, calls whose keys are new can block each other
for good: contenders hold all connections, and each of them waits for another connection or for a
key. With more connections they never do. -/
theorem deadlock_iff (hcalls : ∀ i, (start.calls i).Redeems)
    (hfresh : ∀ i ∈ start.contenders, (start.calls i).Fresh start.tables)
    (hsome : start.contenders.Nonempty) :
    (∃ as s, start.run as = some s ∧ s.Stuck postgres) ↔
      start.connections ≤ start.contenders.card := by
  constructor
  · rintro ⟨as, s, hs, hstuck⟩
    by_contra hN
    have hsum : ∑ i, start.waiting i < start.connections := by
      rw [Start.sum_waiting]
      omega
    exact (Start.ordered hcalls hs).not_stuck exists_exec hsum hstuck
  · intro hN
    obtain ⟨i₀, hi₀⟩ := hsome
    -- For each key of a batch, one batch that has it.
    have hrep : ∀ key, ∃ j, start.batchKey key = true →
        (start.calls j).batchKey = key ∧ (start.calls j).key = key := by
      intro key
      by_cases hkey : start.batchKey key = true
      · have hkey' := hkey
        simp only [Start.batchKey, Bool.and_eq_true, decide_eq_true_eq] at hkey'
        obtain ⟨hne, j, hj⟩ := hkey'
        exact ⟨j, fun _ => ⟨hj, (Call.key_of_batchKey (hj ▸ hne)).trans hj⟩⟩
      · exact ⟨i₀, fun h => absurd h hkey⟩
    choose rep hrep using hrep
    have hkey : ∀ i ∈ start.contenders, start.batchKey (start.calls i).key = true := fun i hi =>
      (Finset.mem_filter.mp hi).2
    have hmem : ∀ i ∈ start.contenders, rep (start.calls i).key ∈ start.contenders := by
      intro i hi
      refine Finset.mem_filter.mpr ⟨Finset.mem_univ _, ?_⟩
      rw [(hrep _ (hkey i hi)).2]
      exact hkey i hi
    -- As many contenders as there are connections, with these batches among them.
    obtain ⟨chosen, hsub, hcard, hclosed⟩ : ∃ chosen ⊆ start.contenders,
        chosen.card = start.connections ∧ ∀ i ∈ chosen, rep (start.calls i).key ∈ chosen := by
      have himage : start.contenders.image (fun i => rep (start.calls i).key) ⊆ start.contenders :=
        Finset.image_subset_iff.mpr hmem
      rcases le_total start.connections
        (start.contenders.image fun i => rep (start.calls i).key).card with hle | hle
      · obtain ⟨chosen, hsub, hcard⟩ := Finset.exists_subset_card_eq hle
        refine ⟨chosen, hsub.trans himage, hcard, fun i hi => ?_⟩
        obtain ⟨i', hi', rfl⟩ := Finset.mem_image.mp (hsub hi)
        rwa [(hrep _ (hkey i' hi')).2]
      · obtain ⟨chosen, hsub, hsub', hcard⟩ :=
          Finset.exists_subsuperset_card_eq himage hle hN
        exact ⟨chosen, hsub', hcard, fun i hi => hsub (Finset.mem_image_of_mem _ (hsub' hi))⟩
    obtain ⟨as, s, hs, hjam⟩ := Start.Jam.exists_begun chosen.toList chosen.nodup_toList
      (by rw [Finset.length_toList, hcard]) fun i hi => hfresh i (hsub (Finset.mem_toList.mp hi))
    -- Those batches insert their keys.
    obtain ⟨holders, hnodup, hholders⟩ : ∃ holders : List ι, holders.Nodup ∧
        ∀ j, j ∈ holders ↔ j ∈ chosen ∧ rep (start.calls j).key = j :=
      ⟨(chosen.filter fun i => rep (start.calls i).key = i).toList, Finset.nodup_toList _,
        fun j => by rw [Finset.mem_toList, Finset.mem_filter]⟩
    have hkeys : (holders.map fun j => (start.calls j).key).Nodup := by
      refine hnodup.map_on fun j hj j' hj' he => ?_
      rw [← ((hholders j).mp hj).2, ← ((hholders j').mp hj').2, he]
    obtain ⟨as', s', hs', hjam'⟩ := hjam.exists_claimed hs holders hkeys fun j hj => by
      obtain ⟨hj, hself⟩ := (hholders j).mp hj
      have hbatch := (hrep _ (hkey j (hsub hj))).1
      rw [hself] at hbatch
      exact ⟨Finset.mem_toList.mpr hj, hbatch ▸ (hfresh j (hsub hj)).key_ne, hfresh j (hsub hj)⟩
    refine ⟨as', s', hs', hjam'.not_finished (hfresh i₀ hi₀), hjam'.stuck ?_ hcalls ?_⟩
    · rw [Finset.length_toList, hcard]
    · intro i hi _
      have hi := Finset.mem_toList.mp hi
      have hsame := (hrep _ (hkey i (hsub hi))).2
      refine ⟨hfresh i (hsub hi), rep (start.calls i).key, ?_, hsame⟩
      refine (hholders _).mpr ⟨hclosed i hi, ?_⟩
      rw [hsame]

/-- Two batches with keys of their own. -/
def twoBatches (connections : ℕ) : Start Bool :=
  { Start.of (fun b => .batchRedeem ⟨"u", ["aaaa"], if b then "first" else "second", ""⟩)
      rewardTables ⟨2, 2, 2, 1, 1⟩ rewardTables_below checkIntegrity_rewardTables with connections }

/-- Both of the batches are contenders: each of them has a key of its own. -/
theorem twoBatches_contenders (connections : ℕ) :
    (twoBatches connections).contenders = Finset.univ := by
  ext b
  cases b <;> simp [Start.contenders, Start.batchKey, twoBatches, Start.of, Call.key, Call.batchKey]

/-- Both of the calls are redemptions, so each of them needs connections. -/
theorem twoBatches_redeems (connections : ℕ) (b : Bool) :
    ((twoBatches connections).calls b).Redeems := trivial

/-- With three connections they can be completed from the start. -/
theorem redemptions_complete_two : ∃ as' s', (∀ act ∈ as', ∃ b c, act = Action.exec b c) ∧
    (twoBatches 3).run ([] ++ as') = some s' ∧
    ∀ b, s'.progs b = none ∨ ∃ r, s'.progs b = some (.ret r) :=
  redemptions_complete (twoBatches_redeems 3) (by rw [twoBatches_contenders]; decide) rfl

/-- With two connections they can block each other, and with three they cannot. -/
theorem deadlock_iff_two :
    (∃ as s, (twoBatches 2).run as = some s ∧ s.Stuck postgres) ∧
      ¬ ∃ as s, (twoBatches 3).run as = some s ∧ s.Stuck postgres := by
  have hfresh : ∀ n, ∀ b ∈ (twoBatches n).contenders,
      ((twoBatches n).calls b).Fresh (twoBatches n).tables := by
    intro n b _
    have hnew : ∀ key ∈ ["first", "second"], (twoBatches n).tables.keys.get? key = none :=
      fun key _ => rfl
    have hcode : ∃ code ∈ ["aaaa"], itemError [] (normalizeCode code) = none :=
      ⟨"aaaa", by simp, by decide +kernel⟩
    cases b
    · exact ⟨by decide +kernel, hcode, by decide +kernel, hnew "second" (by simp)⟩
    · exact ⟨by decide +kernel, hcode, by decide +kernel, hnew "first" (by simp)⟩
  have hsome : ∀ n, (twoBatches n).contenders.Nonempty := fun n => by
    rw [twoBatches_contenders]
    exact Finset.univ_nonempty
  constructor
  · refine (deadlock_iff (twoBatches_redeems 2) (hfresh 2) (hsome 2)).mpr ?_
    rw [twoBatches_contenders]
    decide
  · rw [deadlock_iff (twoBatches_redeems 3) (hfresh 3) (hsome 3), twoBatches_contenders]
    decide

end CdkSystem
