import CdkSystem.Json
import CdkSystem.Text
import CdkSystem.Lib.RowLock
import CdkSystem.Lib.Table

/-!
# The database schema

The tables of `db/migrations` that redemption and webhook delivery use, with the columns that their
queries read, the changes that the queries make to them (`Write`, `Tables.apply`), and the row locks
that they take (`Lock`).

A table's rows have the columns as fields, `NULL` being `none`, and its constraints are
`Tables.Integrity`. An update of a row is a function that keeps the row's `id`, which is what the
lemmas `key_…` say for each of them; a table can be modified only by such a function.
-/

namespace CdkSystem

open RowLock (Time)
open Relational

/-- `batch_status` of the schema: a batch is active or disabled. -/
inductive BatchStatus where
  | active
  | disabled
  deriving DecidableEq, Repr

/-- `code_status` of the schema; a code that is used up keeps its status. -/
inductive CodeStatus where
  | unused
  | disabled
  deriving DecidableEq, Repr

/-- `redemption_result` of the schema: how a redemption can end. -/
inductive RedemptionResult where
  | success
  | invalidInput
  | invalidCode
  | codeDisabled
  | batchDisabled
  | expired
  | codeUsedUp
  | userLimit
  | rateLimited
  | credentialUnavailable
  deriving DecidableEq, Repr

/-- `webhook_status` of the schema, for redemptions and for outbox rows. -/
inductive WebhookStatus where
  | none
  | pending
  | success
  | failed
  | deadLetter
  deriving DecidableEq, Repr

/-- The label of a result in the database and in JSON. -/
def RedemptionResult.label : RedemptionResult → String
  | success => "success"
  | invalidInput => "invalid_input"
  | invalidCode => "invalid_code"
  | codeDisabled => "code_disabled"
  | batchDisabled => "batch_disabled"
  | expired => "expired"
  | codeUsedUp => "code_used_up"
  | userLimit => "user_limit"
  | rateLimited => "rate_limited"
  | credentialUnavailable => "credential_unavailable"

/-- The result with a label, if there is one among those of the enumeration. -/
def RedemptionResult.ofLabel? (s : String) : Option RedemptionResult :=
  [success, invalidInput, invalidCode, codeDisabled, batchDisabled, expired, codeUsedUp, userLimit,
    rateLimited, credentialUnavailable].find? fun r => r.label = s

/-- A result is found by its label. -/
@[simp]
theorem RedemptionResult.ofLabel?_label (r : RedemptionResult) : ofLabel? r.label = some r := by
  cases r <;> decide

/-- A row of `batches`: what all of its codes share, and the webhook of their redemptions. -/
structure Batch where
  id : ℕ
  name : String
  description : String
  payloadJson : Json
  codePrefix : String
  codeLength : ℤ
  expiresAt : Option Time
  maxUsesPerCode : ℤ
  maxRedeemsPerUser : ℤ
  webhookUrl : String
  webhookSecret : String
  assignCredential : Bool
  credentialPlanType : String
  status : BatchStatus

/-- A row of `codes`: the text of a code, its batch, and how often it was redeemed. -/
structure Code where
  id : ℕ
  batchId : ℕ
  code : String
  status : CodeStatus
  useCount : ℤ
  deriving DecidableEq

/-- A row of `credentials`: an account that is handed out to at most one redemption. -/
structure Credential where
  id : ℕ
  email : String
  planType : String
  expired : Option Time
  data : Json
  used : Bool
  redemptionId : Option ℕ

/-- A row of `idempotency_keys`: the hash of the request, and its response once there is one. -/
structure IdempotencyKey where
  key : String
  requestHash : List UInt8
  responseBody : Option Json

/-- A row of `redemptions`: a redemption that was tried, and how far its webhook has come. -/
structure Redemption where
  id : ℕ
  codeId : Option ℕ
  batchId : Option ℕ
  codeText : String
  userId : String
  userKey : String
  payloadSnapshot : Json
  result : RedemptionResult
  message : String
  webhookStatus : WebhookStatus
  webhookResponse : String
  webhookAttempt : ℤ
  ip : String
  idempotencyKey : Option String
  eventId : Option String
  createdAt : Time

/-- A row of `webhook_outbox`: an event that is to be delivered, and its lease. -/
structure WebhookOutbox where
  id : ℕ
  eventId : String
  redemptionId : ℕ
  status : WebhookStatus
  scheduledAt : Time
  leaseToken : Option String
  leaseExpiresAt : Option Time
  attempts : ℤ
  lastResponse : String
  deriving DecidableEq

instance : HasKey Batch ℕ := ⟨Batch.id⟩

instance : HasKey Code ℕ := ⟨Code.id⟩

instance : HasKey Credential ℕ := ⟨Credential.id⟩

instance : HasKey IdempotencyKey String := ⟨IdempotencyKey.key⟩

instance : HasKey Redemption ℕ := ⟨Redemption.id⟩

instance : HasKey WebhookOutbox ℕ := ⟨WebhookOutbox.id⟩

/-- The tables of the schema that the service works on. -/
structure Tables where
  batches : Table Batch
  codes : Table Code
  credentials : Table Credential
  keys : Table IdempotencyKey
  redemptions : Table Redemption
  outbox : Table WebhookOutbox

/-- The sequences of the `BIGSERIAL` columns: the next `id` of each table. -/
structure Seqs where
  batches : ℕ
  codes : ℕ
  credentials : ℕ
  redemptions : ℕ
  outbox : ℕ
  deriving DecidableEq

/-- The columns that `UpdateWebhookOutboxSuccess` and `UpdateWebhookOutboxFailed` set. The first one
leaves `scheduled_at` as it is. -/
structure OutboxReport where
  status : WebhookStatus
  lastResponse : String
  scheduledAt : Option Time

/-- The columns that `UpdateRedemptionWebhookStatus` sets: the status and the target's response. -/
structure WebhookReport where
  status : WebhookStatus
  response : String

/-- The changes that statements make, named by the query. -/
inductive Write where
  | createBatch (b : Batch)
  | toggleBatchStatus (id : ℕ)
  | createCode (c : Code)
  | toggleCodeStatus (id : ℕ)
  | incrementCodeUseCount (id : ℕ)
  | createCredential (c : Credential)
  | markCredentialUsed (id redemption : ℕ)
  | deleteCredential (id : ℕ)
  | createIdempotencyKey (k : IdempotencyKey)
  | setIdempotencyResponse (key : String) (body : Json)
  | createRedemption (r : Redemption)
  | updateRedemptionWebhookStatus (id : ℕ) (report : WebhookReport)
  | prepareRedemptionWebhookResend (id : ℕ) (event : String)
  | createWebhookOutboxEvent (o : WebhookOutbox)
  | leaseWebhookOutboxEvent (id : ℕ) (token : String) (expires : Time)
  | updateWebhookOutbox (id : ℕ) (report : OutboxReport)

/-- The other status of a batch, which is what `ToggleBatchStatus` gives it. -/
def Batch.toggleStatus (b : Batch) : Batch :=
  { b with status := if b.status = .active then .disabled else .active }

/-- Toggling a batch keeps its key. -/
theorem Batch.key_toggleStatus (r : Batch) : key (r.toggleStatus) = key r := rfl

/-- The other status of a code, which is what `ToggleCodeStatus` gives it. -/
def Code.toggleStatus (c : Code) : Code :=
  { c with status := if c.status = .unused then .disabled else .unused }

/-- Toggling a code keeps its key. -/
theorem Code.key_toggleStatus (r : Code) : key (r.toggleStatus) = key r := rfl

/-- The code with one use more, as after `IncrementCodeUseCount`. -/
def Code.incrementUseCount (c : Code) : Code := { c with useCount := c.useCount + 1 }

/-- Counting a use of a code keeps its key. -/
theorem Code.key_incrementUseCount (r : Code) : key (r.incrementUseCount) = key r := rfl

/-- The credential handed out by a redemption, as after `MarkCredentialUsed`. -/
def Credential.markUsed (redemption : ℕ) (c : Credential) : Credential :=
  { c with used := true, redemptionId := some redemption }

/-- Handing out a credential keeps its key. -/
theorem Credential.key_markUsed (redemption : ℕ) (r : Credential) :
    key (r.markUsed redemption) = key r := rfl

/-- The row of a key with its response, as after `SetIdempotencyResponse`. -/
def IdempotencyKey.setResponse (body : Json) (k : IdempotencyKey) : IdempotencyKey :=
  { k with responseBody := some body }

/-- Setting the response of a row keeps its key. -/
theorem IdempotencyKey.key_setResponse (body : Json) (r : IdempotencyKey) :
    key (r.setResponse body) = key r := rfl

/-- With another webhook status and one attempt more: `UpdateRedemptionWebhookStatus`. -/
def Redemption.updateWebhookStatus (report : WebhookReport) (r : Redemption) : Redemption :=
  { r with
    webhookStatus := report.status
    webhookResponse := report.response
    webhookAttempt := r.webhookAttempt + 1 }

/-- A report about its webhook keeps the key of a redemption. -/
theorem Redemption.key_updateWebhookStatus (report : WebhookReport) (r : Redemption) :
    key (r.updateWebhookStatus report) = key r := rfl

/-- Pending again with a new event: `PrepareRedemptionWebhookResend`. -/
def Redemption.prepareResend (event : String) (r : Redemption) : Redemption :=
  { r with webhookStatus := .pending, webhookResponse := "", eventId := some event }

/-- Preparing a resend keeps the key of a redemption. -/
theorem Redemption.key_prepareResend (event : String) (r : Redemption) :
    key (r.prepareResend event) = key r := rfl

/-- The outbox row leased once more under a token, as after `LeaseWebhookOutboxEvent`. -/
def WebhookOutbox.lease (token : String) (expires : Time) (o : WebhookOutbox) : WebhookOutbox :=
  { o with
    status := .pending
    leaseToken := some token
    leaseExpiresAt := some expires
    attempts := o.attempts + 1 }

/-- Leasing an outbox row keeps its key. -/
theorem WebhookOutbox.key_lease (token : String) (expires : Time) (r : WebhookOutbox) :
    key (r.lease token expires) = key r := rfl

/-- With the outcome of a delivery and without a lease: `UpdateWebhookOutboxSuccess` and
`UpdateWebhookOutboxFailed`. -/
def WebhookOutbox.update (report : OutboxReport) (o : WebhookOutbox) : WebhookOutbox :=
  { o with
    status := report.status
    lastResponse := report.lastResponse
    scheduledAt := report.scheduledAt.getD o.scheduledAt
    leaseToken := none
    leaseExpiresAt := none }

/-- A report about its delivery keeps the key of an outbox row. -/
theorem WebhookOutbox.key_update (report : OutboxReport) (r : WebhookOutbox) :
    key (r.update report) = key r := rfl

/-- The tables after a change, which touches one table only. -/
def Tables.apply (T : Tables) : Write → Tables
  | .createBatch b => { T with batches := T.batches.insert b }
  | .toggleBatchStatus id =>
    { T with batches := T.batches.modify id Batch.toggleStatus Batch.key_toggleStatus }
  | .createCode c => { T with codes := T.codes.insert c }
  | .toggleCodeStatus id =>
    { T with codes := T.codes.modify id Code.toggleStatus Code.key_toggleStatus }
  | .incrementCodeUseCount id =>
    { T with codes := T.codes.modify id Code.incrementUseCount Code.key_incrementUseCount }
  | .createCredential c => { T with credentials := T.credentials.insert c }
  | .markCredentialUsed id redemption =>
    { T with
      credentials := T.credentials.modify id (Credential.markUsed redemption)
        (Credential.key_markUsed redemption) }
  | .deleteCredential id => { T with credentials := T.credentials.erase id }
  | .createIdempotencyKey k => { T with keys := T.keys.insert k }
  | .setIdempotencyResponse key body =>
    { T with
      keys := T.keys.modify key (IdempotencyKey.setResponse body)
        (IdempotencyKey.key_setResponse body) }
  | .createRedemption r => { T with redemptions := T.redemptions.insert r }
  | .updateRedemptionWebhookStatus id report =>
    { T with
      redemptions := T.redemptions.modify id (Redemption.updateWebhookStatus report)
        (Redemption.key_updateWebhookStatus report) }
  | .prepareRedemptionWebhookResend id event =>
    { T with
      redemptions := T.redemptions.modify id (Redemption.prepareResend event)
        (Redemption.key_prepareResend event) }
  | .createWebhookOutboxEvent o => { T with outbox := T.outbox.insert o }
  | .leaseWebhookOutboxEvent id token expires =>
    { T with
      outbox := T.outbox.modify id (WebhookOutbox.lease token expires)
        (WebhookOutbox.key_lease token expires) }
  | .updateWebhookOutbox id report =>
    { T with
      outbox := T.outbox.modify id (WebhookOutbox.update report) (WebhookOutbox.key_update report) }

/-- What statements lock: the row of a key, or a value of a `UNIQUE` column. -/
inductive Lock where
  | batch (id : ℕ)
  | code (id : ℕ)
  | codeText (text : String)
  | credential (id : ℕ)
  | key (k : String)
  | redemption (id : ℕ)
  | redemptionEvent (event : String)
  | outbox (id : ℕ)
  | outboxEvent (event : String)
  deriving DecidableEq

/-- A code with this text exists, in whatever batch. -/
def Tables.HasCodeText (T : Tables) (text : String) : Prop := ∃ c ∈ T.codes, c.code = text

/-- A redemption with this event exists, as the unique index looks for it. -/
def Tables.HasRedemptionEvent (T : Tables) (event : String) : Prop :=
  ∃ r ∈ T.redemptions, r.eventId = some event

/-- An outbox row of this event exists. -/
def Tables.HasOutboxEvent (T : Tables) (event : String) : Prop := ∃ o ∈ T.outbox, o.eventId = event

/-- What is under a lock has not changed from one state of the tables to another: the row of a key
is the same, and no row with the value of a `UNIQUE` column has appeared. -/
def Lock.Same : Lock → Tables → Tables → Prop
  | .batch id, T, T' => T'.batches.get? id = T.batches.get? id
  | .code id, T, T' => T'.codes.get? id = T.codes.get? id
  | .codeText text, T, T' => T'.HasCodeText text → T.HasCodeText text
  | .credential id, T, T' => T'.credentials.get? id = T.credentials.get? id
  | .key k, T, T' => T'.keys.get? k = T.keys.get? k
  | .redemption id, T, T' => T'.redemptions.get? id = T.redemptions.get? id
  | .redemptionEvent event, T, T' => T'.HasRedemptionEvent event → T.HasRedemptionEvent event
  | .outbox id, T, T' => T'.outbox.get? id = T.outbox.get? id
  | .outboxEvent event, T, T' => T'.HasOutboxEvent event → T.HasOutboxEvent event

end CdkSystem
