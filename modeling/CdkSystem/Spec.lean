import CdkSystem.System

/-!
# What the calls do to the database

`Transition` says what a committed transaction of each call changes, and under which conditions:
for a redemption that the code, the batch and the credential were as they had to be, and that the
response tells what happened (`Redeemed`). A `History` is a list of commits in which each one goes
on from the tables that the one before it left and makes a transition of its caller's call.

`RedeemOutcome` and `BatchOutcome` say what a call has committed when it returns.

Nothing here mentions statements, locks or schedules. That the service keeps to it under every
interleaving is proved in the modules of `Proof`.
-/

namespace CdkSystem

open RowLock Relational

variable {ι : Type}

/-- The tables that were committed at some time: the current ones, and those before each commit. -/
def Past (log : List (Commit ι Tables)) (now T : Tables) : Prop := T = now ∨ ∃ e ∈ log, T = e.before

/-! ## Idempotency keys -/

/-- A key is claimed by its row, if there is a key and it has no row yet. -/
def openKey (T : Tables) (key : String) (requestHash : List UInt8) : List Write :=
  if key = "" ∨ (T.keys.get? key).isSome then []
    else [.createIdempotencyKey ⟨key, requestHash, none⟩]

/-- The response is stored in the key's row, if there is a key. -/
def closeKey (key : String) (body : Json) : List Write :=
  if key = "" then [] else [.setIdempotencyResponse key body]

/-- If the key has a row, then it is one for the same request that has no response yet. -/
def KeyFree (T : Tables) (key : String) (requestHash : List UInt8) : Prop :=
  key ≠ "" → ∀ row, T.keys.get? key = some row →
    row.requestHash = requestHash ∧ row.responseBody = none

/-! ## Redemptions -/

/-- The row of a code with a given text, and the batch that belonged to it when it was looked up. -/
structure FoundCode (past : Tables → Prop) (T : Tables) (text : String) (c : Code) (b : Batch) :
    Prop where
  row : T.codes.get? c.id = some c
  text : c.code = text
  batch : ∃ T', past T' ∧ T'.batches.get? c.batchId = some b

/-- The reasons for a business failure, with the references and the response that it records. The
tables are those before the commit at the time `time`. -/
inductive Refusal (clock time : Time) (past : Tables → Prop) (T : Tables) (text : String) :
    Option ℕ → Option ℕ → RedeemResponse → Prop
  /-- There was no such code. -/
  | invalidCode {T'} (hpast : past T') (h : ¬ T'.HasCodeText text) :
      Refusal clock time past T text none none (failure .invalidCode "兑换码无效，请核对后重试")
  /-- The code or its batch does not allow it. -/
  | state {c b now resp} (found : FoundCode past T text c b) (hnow : clock ≤ now ∧ now ≤ time)
      (h : checkCodeState now c b = some resp) :
      Refusal clock time past T text (some c.id) (some c.batchId) resp
  /-- There was no credential. -/
  | noCredential {c b now} (found : FoundCode past T text c b) (hnow : clock ≤ now ∧ now ≤ time)
      (h : checkCodeState now c b = none) (hassign : b.assignCredential = true) :
      Refusal clock time past T text (some c.id) (some c.batchId)
        (failure .credentialUnavailable "当前套餐凭证库存不足，请稍后重试")

/-- What a success is made of: the rows that it has found, and those that it writes. -/
structure Grant where
  /-- The code before the success. -/
  code : Code
  batch : Batch
  /-- The credential before the success, if one is handed out. -/
  credential : Option Credential
  /-- The event of the webhook, empty when there is none. -/
  event : String
  redemption : Redemption
  /-- The outbox row, if there is a webhook. -/
  outbox : WebhookOutbox

/-- The outbox row is created if the batch has a webhook. -/
def Grant.outboxWrites (g : Grant) : List Write :=
  if g.batch.webhookUrl = "" then [] else [.createWebhookOutboxEvent g.outbox]

/-- The credential is marked used if there is one. -/
def Grant.credentialWrites (g : Grant) : List Write :=
  match g.credential with
  | none => []
  | some x => [.markCredentialUsed x.id g.redemption.id]

/-- The changes of a success, without those of its key. -/
def Grant.writes (g : Grant) : List Write :=
  [.incrementCodeUseCount g.code.id, .createRedemption g.redemption] ++ g.outboxWrites ++
    g.credentialWrites

/-- The credential that a success hands out is one of the batch's plan that is unused and has not
expired when the transaction begins; there is one exactly if the batch assigns credentials. -/
def Grant.Assigns (g : Grant) (T : Tables) : Prop :=
  match g.credential with
  | none => g.batch.assignCredential = false
  | some x => g.batch.assignCredential = true ∧ T.credentials.get? x.id = some x ∧
      x.available g.redemption.createdAt g.batch.credentialPlanType = true

/-- The webhook event of a success is new; there is one exactly if the batch has a webhook. -/
structure Grant.Announces (g : Grant) (T : Tables) : Prop where
  none : g.batch.webhookUrl = "" → g.event = ""
  random : g.batch.webhookUrl ≠ "" → isHex 16 g.event = true
  redemptionEvent : g.batch.webhookUrl ≠ "" → ¬ T.HasRedemptionEvent g.event
  outboxNew : g.batch.webhookUrl ≠ "" → T.outbox.get? g.outbox.id = .none
  outboxEvent : g.batch.webhookUrl ≠ "" → ¬ T.HasOutboxEvent g.event
  row : g.batch.webhookUrl ≠ "" →
    g.outbox = newOutboxEvent g.outbox.id g.event g.redemption.id g.redemption.createdAt

/-- The row of a success, as the request and the code's batch determine it. -/
def Grant.row (g : Grant) (rt : Runtime) (req : RedeemRequest) : Redemption :=
  (redemptionParams rt req (normalizeCode req.code) (normalizeUserKey rt req.userID)
    (some g.code.id) (some g.code.batchId) g.batch.payloadJson .success "兑换成功 🎉"
    (webhookStatus (g.batch.webhookUrl ≠ "")) g.event).row g.redemption.id g.redemption.createdAt

/-- A success for a request is in order: the tables are those before the commit at `time`. -/
structure Grant.InOrder (g : Grant) (rt : Runtime) (clock time : Time) (past : Tables → Prop)
    (T : Tables) (req : RedeemRequest) : Prop where
  found : FoundCode past T (normalizeCode req.code) g.code g.batch
  checked : ∃ now, clock ≤ now ∧ now ≤ time ∧ checkCodeState now g.code g.batch = none
  assigns : g.Assigns T
  announces : g.Announces T
  row : g.redemption = g.row rt req
  new : T.redemptions.get? g.redemption.id = none
  createdAt : clock ≤ g.redemption.createdAt ∧ g.redemption.createdAt ≤ time

/-- The row of a business failure: no webhook, no document, and the message that the user was shown.
-/
def refusedRow (rt : Runtime) (req : RedeemRequest) (codeID batchID : Option ℕ)
    (resp : RedeemResponse) (result : RedemptionResult) (id : ℕ) (createdAt : Time) : Redemption :=
  (redemptionParams rt req (normalizeCode req.code) (normalizeUserKey rt req.userID) codeID batchID
    (.obj []) result resp.message .none "").row id createdAt

/-- A commit of a redemption, and the response to it; the request has its user trimmed. -/
inductive Redeemed (rt : Runtime) (clock : Time) (past : Tables → Prop) (req : RedeemRequest)
    (e : Commit ι Tables) : RedeemResponse → Prop
  /-- A business failure. -/
  | refused {codeID batchID resp result id createdAt}
      (reason : Refusal clock e.time past e.before (normalizeCode req.code) codeID batchID resp)
      (known : resp.result = .known result)
      (new : e.before.redemptions.get? id = none)
      (hcreated : clock ≤ createdAt ∧ createdAt ≤ e.time)
      (free : KeyFree e.before req.idempotencyKey (hashRequest rt req))
      (after : e.after = postgres.applyAll e.before
        (openKey e.before req.idempotencyKey (hashRequest rt req) ++
          [.createRedemption (refusedRow rt req codeID batchID resp result id createdAt)] ++
          closeKey req.idempotencyKey resp.marshal)) :
      Redeemed rt clock past req e resp
  /-- A success. -/
  | succeeded {g : Grant} {redeemedAt} {resp : RedeemResponse}
      (inOrder : g.InOrder rt clock e.time past e.before req)
      (response : resp = successResponse rt req (normalizeCode req.code) g.batch g.credential
        redeemedAt g.event)
      (free : KeyFree e.before req.idempotencyKey (hashRequest rt req))
      (after : e.after = postgres.applyAll e.before
        (openKey e.before req.idempotencyKey (hashRequest rt req) ++ g.writes ++
          closeKey req.idempotencyKey resp.marshal)) :
      Redeemed rt clock past req e resp

/-! ## Batch redemptions -/

/-- The request of `Redeem` for a code of a batch request, as it is after `Redeem` has trimmed it.
-/
def BatchRedeemRequest.itemRequest (req : BatchRedeemRequest) (code : String) : RedeemRequest :=
  (req.trimmed.item code).trimmed

/-- The codes that have been processed, with their items, and the commits on the way: `seen` are the
codes for which `Redeem` was called. -/
inductive Tally (rt : Runtime) (clock : Time) (past : Tables → Prop) (req : BatchRedeemRequest) :
    List String → List (String × BatchRedeemItem) → List (Commit ι Tables) → Prop
  /-- Before the first code. -/
  | start : Tally rt clock past req [] [] []
  /-- A code that is not redeemed because it is malformed or was there before. -/
  | skipped {seen items log code message} (h : Tally rt clock past req seen items log)
      (herror : itemError seen (normalizeCode code) = some message) :
      Tally rt clock past req seen (items ++ [(code, skippedItem code message)]) log
  /-- A code for which `Redeem` returns without a transaction. -/
  | rejected {seen items log code resp} (h : Tally rt clock past req seen items log)
      (hcheck : itemError seen (normalizeCode code) = none)
      (hinput : checkInput (req.itemRequest code) (normalizeCode code) = some resp) :
      Tally rt clock past req (normalizeCode code :: seen) (items ++ [(code, itemOf code resp)]) log
  /-- A code for which `Redeem` has committed. -/
  | redeemed {seen items log code resp e} (h : Tally rt clock past req seen items log)
      (hcheck : itemError seen (normalizeCode code) = none)
      (he : Redeemed rt clock past (req.itemRequest code) e resp) :
      Tally rt clock past req (normalizeCode code :: seen) (items ++ [(code, itemOf code resp)])
        (log ++ [e])

/-- The response of a batch request for the items of its codes. -/
def BatchRedeemRequest.response (req : BatchRedeemRequest)
    (items : List (String × BatchRedeemItem)) : BatchRedeemResponse :=
  (items.map Prod.snd).foldl BatchRedeemResponse.add req.start

/-! ## All calls -/

/-- The credentials that a call may delete. -/
def Call.MayDelete : Call → ℕ → Prop
  | .deleteCredential id, id' => id' = id
  | .batchDeleteCredentials ids, id' => id' ∈ ids
  | _, _ => False

/-- An imported credential: its `id` has never been there before, and nobody has it. -/
structure Credential.Imported (start : Start ι) (past : Tables → Prop) (c : Credential) :
    Prop where
  new : ∀ T, past T → T.credentials.get? c.id = none
  later : start.seq.credentials ≤ c.id
  unused : c.used = false
  nobody : c.redemptionId = none

/-- A commit leases an event of the outbox, which is `event` afterwards. -/
def Leases (e : Commit ι Tables) (event : WebhookOutbox) : Prop :=
  ∃ (o : WebhookOutbox) (token : String) (expires : Time), e.before.outbox.get? o.id = some o ∧
    (o.status = .pending ∨ o.status = .failed) ∧ event = o.lease token expires ∧
    e.after = e.before.apply (.leaseWebhookOutboxEvent o.id token expires)

/-- A created batch: it is new, valid, and the row of the request. -/
structure Batch.Created (rt : Runtime) (T : Tables) (req : CreateBatchRequest) (b : Batch) :
    Prop where
  accepted : validateCreateBatch rt req.normalized = []
  new : T.batches.get? b.id = none
  valid : b.Valid
  row : ∃ secret expiresAt payload, b =
    (CreateBatchRequest.params rt { req.normalized with webhookSecret := secret } expiresAt).row
      payload b.id

/-- A created code: it is new, unused, of the batch `b`, and no code has its text. -/
structure Code.Created (T : Tables) (b : Batch) (c : Code) : Prop where
  new : T.codes.get? c.id = none
  batch : c.batchId = b.id
  status : c.status = .unused
  useCount : c.useCount = 0
  text : ¬ T.HasCodeText c.code

/-- A commit creates the batch of a request with its codes. -/
structure BatchCreated (rt : Runtime) (req : CreateBatchRequest) (draws : List (Fin 31))
    (e : Commit ι Tables) (b : Batch) (cs : List Code) : Prop where
  batch : b.Created rt e.before req
  generated : generateCodes (toUpper req.normalized.codePrefix) req.codeLength.toNat
    req.count.toNat draws = some (cs.map Code.code)
  codes : ∀ c ∈ cs, c.Created e.before b
  valid : ∀ c ∈ cs, validCode c.code = true
  ids : (cs.map Code.id).Nodup
  texts : (cs.map Code.code).Nodup
  after : e.after = postgres.applyAll e.before (.createBatch b :: cs.map .createCode)

variable [DecidableEq ι]

/-- What a commit of a call changes, when these are the commits before it. -/
inductive Transition (start : Start ι) (log : List (Commit ι Tables)) (e : Commit ι Tables) :
    Call → Prop
  /-- A commit that changes nothing. -/
  | idle {call} (after : e.after = e.before) : Transition start log e call
  | redeem {req resp}
      (h : Redeemed start.rt start.clock (Past log e.before) req.trimmed e resp) :
      Transition start log e (.redeem req)
  | batchItem {req code resp} (hcode : code ∈ req.codes)
      (h : Redeemed start.rt start.clock (Past log e.before) (req.itemRequest code) e resp) :
      Transition start log e (.batchRedeem req)
  /-- The response of a batch request is stored. -/
  | batchStored {req seen items} (hkey : req.idempotencyKey ≠ "")
      (tally : Tally start.rt start.clock (Past log e.before) req seen items
        (log.filter fun e' => e'.caller = e.caller))
      (all : items.map Prod.fst = req.codes)
      (free : KeyFree e.before req.idempotencyKey (hashBatchRequest start.rt req.trimmed))
      (after : e.after = postgres.applyAll e.before
        (openKey e.before req.idempotencyKey (hashBatchRequest start.rt req.trimmed) ++
          closeKey req.idempotencyKey (req.trimmed.response items).marshal)) :
      Transition start log e (.batchRedeem req)
  | createdBatch {req draws b cs} (h : BatchCreated start.rt req draws e b cs) :
      Transition start log e (.createBatch req draws)
  | toggledBatch {id} (after : e.after = e.before.apply (.toggleBatchStatus id)) :
      Transition start log e (.toggleBatch id)
  | toggledCode {id} (after : e.after = e.before.apply (.toggleCodeStatus id)) :
      Transition start log e (.toggleCode id)
  | resent {id event r} {o : WebhookOutbox} (row : e.before.redemptions.get? id = some r)
      (success : r.result = .success)
      (finished : r.webhookStatus ∈ [WebhookStatus.success, .failed, .deadLetter])
      (redemptionEvent : ¬ e.before.HasRedemptionEvent event)
      (new : e.before.outbox.get? o.id = none) (outboxEvent : ¬ e.before.HasOutboxEvent event)
      (outbox : o = newOutboxEvent o.id event id o.scheduledAt)
      (after : e.after = postgres.applyAll e.before
        [.prepareRedemptionWebhookResend id event, .createWebhookOutboxEvent o]) :
      Transition start log e (.resendWebhook id)
  | imported {items} {cs : List Credential} (new : ∀ c ∈ cs, c.Imported start (Past log e.before))
      (after : e.after = postgres.applyAll e.before (cs.map .createCredential)) :
      Transition start log e (.importCredentials items)
  | deleted {call} (ids : List ℕ) (hcall : ∀ id ∈ ids, call.MayDelete id)
      (after : e.after = postgres.applyAll e.before (ids.map .deleteCredential)) :
      Transition start log e call
  | leased {turns event} (h : Leases e event) : Transition start log e (.worker turns)
  | outboxReported {turns} {o event : WebhookOutbox} (report : OutboxReport)
      (lease : ∃ e' ∈ log, Leases e' event) (row : e.before.outbox.get? event.id = some o)
      (token : o.leaseToken = event.leaseToken) (leased : o.leaseToken.isSome = true)
      (finishes : report.status ∈ [WebhookStatus.success, .failed, .deadLetter])
      (retries : report.status = .failed → event.attempts < start.rt.config.maxAttempts)
      (after : e.after = e.before.apply (.updateWebhookOutbox event.id report)) :
      Transition start log e (.worker turns)
  | redemptionReported {turns} {r : Redemption} {o : WebhookOutbox} (report : WebhookReport)
      (row : e.before.redemptions.get? r.id = some r) (event : e.before.outbox.get? o.id = some o)
      (redemption : o.redemptionId = r.id) (current : r.eventId = some o.eventId)
      (reports : report.status ∈ [WebhookStatus.pending, .success, .deadLetter])
      (agrees : report.status ≠ .pending → o.status = report.status)
      (after : e.after = e.before.apply (.updateRedemptionWebhookStatus r.id report)) :
      Transition start log e (.worker turns)

/-- The commits from the start to some tables, each a transition of its caller's call. -/
inductive History (start : Start ι) : List (Commit ι Tables) → Tables → Prop
  | start : History start [] start.tables
  | commit {log e} (h : History start log e.before) (time : start.clock ≤ e.time)
      (he : Transition start log e (start.calls e.caller)) : History start (log ++ [e]) e.after

/-! ## What calls return -/

/-- A credential that no call can take: it is deleted or used, or a transaction has it locked. -/
def Taken (d : Database ι) (id : ℕ) : Prop :=
  (∀ r, d.tables.credentials.get? id = some r → r.used = true) ∨
    ∃ w, d.owner (.credential id) = some w

/-- At some time, all credentials that were there at the start and were available for the batch of a
code were taken, and they still are, unless something has failed. -/
def Start.Exhausted (start : Start ι) (text : String) (d : Database ι) : Prop :=
  (∃ i, d.failed i = true) ∨
    ∃ T c b now, Past d.log d.tables T ∧ FoundCode (Past d.log d.tables) T text c b ∧
      start.clock ≤ now ∧ now ≤ d.clock ∧
      ∀ r ∈ start.tables.credentials, r.available now b.credentialPlanType = true → Taken d r.id

/-- What a key that another call has used answers to a request: the stored response, or an error
when the key belongs to another request or its response cannot be decoded. -/
inductive Answered {α : Type} (decode : Json → Option α) (key : String) (requestHash : List UInt8)
    (T : Tables) : Except GoError α → Prop
  | replayed {row body resp} (hkey : key ≠ "") (hrow : T.keys.get? key = some row)
      (hhash : row.requestHash = requestHash) (hbody : row.responseBody = some body)
      (hresp : decode body = some resp) : Answered decode key requestHash T (.ok resp)
  | conflict {row} (hkey : key ≠ "") (hrow : T.keys.get? key = some row)
      (hhash : row.requestHash ≠ requestHash) :
      Answered decode key requestHash T (.error .idempotencyConflict)
  | undecodable {row body err} (hkey : key ≠ "") (hrow : T.keys.get? key = some row)
      (hhash : row.requestHash = requestHash) (hbody : row.responseBody = some body)
      (hresp : decode body = none) : Answered decode key requestHash T (.error err)

/-- What `Redeem` has done when it returns; the call began in the state `base`. -/
inductive RedeemOutcome (start : Start ι) (i : ι) (req : RedeemRequest) (base d : Database ι) :
    Except GoError RedeemResponse → Prop
  /-- The input was not accepted. -/
  | invalid {resp} (h : checkInput req.trimmed (normalizeCode req.code) = some resp)
      (quiet : Quiet i base d) : RedeemOutcome start i req base d (.ok resp)
  /-- The key had been used before. -/
  | answered {r} (hinput : checkInput req.trimmed (normalizeCode req.code) = none)
      (h : Answered RedeemResponse.unmarshal req.idempotencyKey (hashRequest start.rt req.trimmed)
        d.tables r)
      (quiet : Quiet i base d) : RedeemOutcome start i req base d r
  /-- A redemption was committed. -/
  | redeemed {e resp} (hinput : checkInput req.trimmed (normalizeCode req.code) = none)
      (h : Redeemed start.rt start.clock (Past d.log d.tables) req.trimmed e resp)
      (log : d.ownLog i = base.ownLog i ++ [e]) (failed : d.failed i = base.failed i)
      (full : resp.result = .known .credentialUnavailable →
        start.Exhausted (normalizeCode req.code) d) :
      RedeemOutcome start i req base d (.ok resp)
  /-- An operation failed. -/
  | failed {err} (h : Failing i base d) : RedeemOutcome start i req base d (.error err)

/-- What `CreateBatch` has done when it answers. -/
inductive CreateOutcome (start : Start ι) (i : ι) (req : CreateBatchRequest)
    (draws : List (Fin 31)) (d : Database ι) : Reply → Prop
  /-- The batch was created. -/
  | created {e b cs idle} (h : BatchCreated start.rt req draws e b cs)
      (log : d.ownLog i = idle ++ [e]) (idle : ∀ e ∈ idle, e.after = e.before) :
      CreateOutcome start i req draws d (respondOK "批次创建成功")
  /-- Nothing was changed. -/
  | refused {reply} (error : reply.status ≠ 200) (idle : ∀ e ∈ d.ownLog i, e.after = e.before) :
      CreateOutcome start i req draws d reply

/-- What `BatchRedeem` has done when it returns. -/
inductive BatchOutcome (start : Start ι) (i : ι) (req : BatchRedeemRequest) (d : Database ι) :
    Except GoError BatchRedeemResponse → Prop
  /-- The input was not accepted. -/
  | invalid {resp} (h : checkBatchInput req.trimmed = some resp) (log : d.ownLog i = []) :
      BatchOutcome start i req d (.ok resp)
  /-- The key had been used before. -/
  | answered {r} (hinput : checkBatchInput req.trimmed = none)
      (h : Answered BatchRedeemResponse.unmarshal req.idempotencyKey
        (hashBatchRequest start.rt req.trimmed) d.tables r)
      (log : d.ownLog i = []) : BatchOutcome start i req d r
  /-- All codes were processed, without a key. -/
  | done {seen items own} (hinput : checkBatchInput req.trimmed = none)
      (hkey : req.idempotencyKey = "")
      (tally : Tally start.rt start.clock (Past d.log d.tables) req seen items own)
      (all : items.map Prod.fst = req.codes) (log : d.ownLog i = own) :
      BatchOutcome start i req d (.ok (req.trimmed.response items))
  /-- All codes were processed, and the response was stored in the key's row. -/
  | stored {seen items own e} (hinput : checkBatchInput req.trimmed = none)
      (hkey : req.idempotencyKey ≠ "")
      (tally : Tally start.rt start.clock (Past d.log d.tables) req seen items own)
      (all : items.map Prod.fst = req.codes) (log : d.ownLog i = own ++ [e])
      (hrow : d.tables.keys.get? req.idempotencyKey = some ⟨req.idempotencyKey,
        hashBatchRequest start.rt req.trimmed, some (req.trimmed.response items).marshal⟩) :
      BatchOutcome start i req d (.ok (req.trimmed.response items))
  /-- An operation failed. -/
  | failed {err} (h : d.failed i = true) : BatchOutcome start i req d (.error err)

end CdkSystem
