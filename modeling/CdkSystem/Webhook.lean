import CdkSystem.Go

/-!
# Delivering webhooks

The worker of `internal/webhook`: it leases a due event of the outbox (`leaseEvent`), sends the
request (`deliverEvent`), and reports the outcome first in the outbox row, under its lease token,
and then in the redemption, under the event's id (`markSuccess`, `markFailed`). All statements are
transactions of their own.

The worker's turns are bounded by a number that is given in advance, since the loop of the source
runs until the process ends. What a target answers is an action of the run. A delivery that fails is
scheduled again after a delay that depends on the number of attempts, as long as there are fewer
than `MaxAttempts`, and then the event is a dead letter.
-/

namespace CdkSystem

open RowLock

/-- `truncate` keeps the first `n` characters of a text, which may be more bytes. -/
def truncate (s : List UInt8) (n : ℕ) : List UInt8 :=
  if (runes s).length ≤ n then s else encodeRunes ((runes s).take n)

/-- What `Deliver` returns: whether the target accepted the event, the detail, and whether there was
an error. -/
structure Delivered where
  ok : Bool
  detail : List UInt8
  err : Bool

/-- The detail that `Deliver` reads from a response's body. -/
def responseDetail (rt : Runtime) (body : List UInt8) : List UInt8 :=
  truncate (body.take rt.config.maxResponseBytes) 500

/-- What `Deliver` returns for what happens to the request. -/
def deliver (rt : Runtime) : Delivery → Delivered
  | .rejected reason => ⟨false, bytesOfText "url rejected: " ++ reason, false⟩
  | .unsent => ⟨false, [], true⟩
  | .failed reason => ⟨false, bytesOfText "request failed: " ++ reason, false⟩
  | .response status body =>
    if 200 ≤ status ∧ status < 300 then ⟨true, responseDetail rt body, false⟩
    else
      ⟨false, bytesOfText ("http " ++ toString status ++ ": ") ++ responseDetail rt body, false⟩

/-- The update of the redemption with which a report ends. -/
def reportRedemption (event : WebhookOutbox) (status : WebhookStatus) (detail : List UInt8) :
    M Unit := do
  let _ ← (Go.auto .database (.updateRedemptionWebhookStatus
    { webhookStatus := status, webhookResponse := detail, id := event.redemptionId
      eventId := event.eventId })).run
  return ()

/-- The common part of `markSuccess` and `markFailed`: the outbox row is updated under its lease,
and if it was, the redemption. -/
def reportEvent (event : WebhookOutbox) (p : UpdateWebhookOutboxParams) (status : WebhookStatus) :
    M Unit := do
  match ← (Go.auto .database (.updateWebhookOutbox p)).run with
  | .error _ => return ()
  | .ok affected =>
    if affected ≠ 1 then return ()
    else reportRedemption event status p.lastResponse

/-- `markSuccess`: the event is reported as delivered, with the detail of the response. -/
def markSuccess (event : WebhookOutbox) (detail : List UInt8) : M Unit :=
  reportEvent event
    { status := .success, lastResponse := detail, scheduledAt := none, id := event.id
      leaseToken := event.leaseToken } .success

/-- The delay before the next attempt, which grows up to the configured maximum. -/
def retryDelay (rt : Runtime) (attempts : ℤ) : Time :=
  if rt.config.maxDelay < rt.backoff attempts then rt.config.maxDelay else rt.backoff attempts

/-- Whether `markFailed` schedules another attempt: the failure allows one, and not all are used. -/
def retries (rt : Runtime) (event : WebhookOutbox) (retry : Bool) : Prop :=
  retry = true ∧ event.attempts < rt.config.maxAttempts

instance (rt : Runtime) (event : WebhookOutbox) (retry : Bool) :
    Decidable (retries rt event retry) :=
  inferInstanceAs (Decidable (_ ∧ _))

/-- The status that `markFailed` gives the outbox row. -/
def failedStatus (rt : Runtime) (event : WebhookOutbox) (retry : Bool) : WebhookStatus :=
  if retries rt event retry then .failed else .deadLetter

/-- The status that `markFailed` gives the redemption. -/
def redemptionStatus (status : WebhookStatus) : WebhookStatus :=
  if status = .failed then .pending else status

/-- `markFailed`: the event is scheduled again after a delay, or it is given up. -/
def markFailed (rt : Runtime) (event : WebhookOutbox) (detail : List UInt8) (retry : Bool) :
    M Unit := do
  let now ← ask .now
  let scheduledAt := if retries rt event retry then now + retryDelay rt event.attempts else now
  reportEvent event
    { status := failedStatus rt event retry, lastResponse := detail
      scheduledAt := some scheduledAt, id := event.id, leaseToken := event.leaseToken }
    (redemptionStatus (failedStatus rt event retry))

/-- The body that `deliverEvent` sends, made of the event, its redemption and the batch. -/
def eventBody (rt : Runtime) (event : WebhookOutbox) (redemption : Redemption) (b : Batch) :
    EventBody :=
  { event := "cdk.redeemed"
    redemptionId := redemption.id
    code := redemption.codeText
    userId := redemption.userId
    batch := ⟨b.id, b.name⟩
    payload := redemption.payloadSnapshot
    redeemedAt := rt.formatTime redemption.createdAt
    eventId := event.eventId }

/-- The report on what `Deliver` returned: a delivery counts only if there was no error. -/
def markDelivered (rt : Runtime) (event : WebhookOutbox) (r : Delivered) : M Unit :=
  if r.err = false ∧ r.ok = true then markSuccess event r.detail
  else markFailed rt event r.detail true

/-- `deliverEvent`: the redemption and its batch are read, the event is sent, and the outcome
reported. -/
def deliverEvent (rt : Runtime) (event : WebhookOutbox) : M Unit := do
  match ← (Go.auto .database (.getRedemptionByID event.redemptionId)).run with
  | .ok (some redemption) =>
    match redemption.batchId with
    | none => markFailed rt event (bytesOfText "redemption has no batch") false
    | some batchId =>
      match ← (Go.auto .database (.getBatchByID batchId)).run with
      | .ok (some b) =>
        let d ← ask (.deliver b.webhookUrl b.webhookSecret (eventBody rt event redemption b))
        markDelivered rt event (deliver rt d)
      | _ => markFailed rt event (bytesOfText "failed to load batch") true
  | _ => markFailed rt event (bytesOfText "failed to load redemption") true

/-- `leaseEvent`; an error ends the loop as having no event does. -/
def leaseEvent : M (Option WebhookOutbox) := do
  let token ← ask (.randomHex 16)
  match ← (Go.auto .database (.leaseWebhookOutboxEvent token)).run with
  | .error _ => return none
  | .ok event => return event

/-- `processBatch`, for at most so many events. -/
def processBatch (rt : Runtime) : ℕ → M Unit
  | 0 => return ()
  | n + 1 => do
    match ← leaseEvent with
    | none => return ()
    | some event =>
      deliverEvent rt event
      processBatch rt n

end CdkSystem
