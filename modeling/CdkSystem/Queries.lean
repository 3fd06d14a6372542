import CdkSystem.Runtime
import CdkSystem.Schema
import CdkSystem.Utf8

/-!
# The queries

The queries of `db/queries/queries.sql` that redemption, its administration and webhook delivery
use, under their names there, and what PostgreSQL does for them: which rows they lock and write,
what they return, and when they fail because of a constraint of `db/migrations`.

`GetCodeByCode` is two operations. Its join reads the code and its batch in the statement's
snapshot (`getCodeByCode`), and then `FOR UPDATE OF c` waits for the code's row and returns its
latest version (`getCodeByCodeForUpdate`), together with the batch of the snapshot.
-/

namespace CdkSystem

open RowLock Relational

/-- `CreateBatchParams`. The payload is `none` when it is not a JSON document. -/
structure CreateBatchParams where
  name : String
  description : String
  payloadJson : Option Json
  codePrefix : String
  codeLength : ℤ
  expiresAt : Option Time
  maxUsesPerCode : ℤ
  maxRedeemsPerUser : ℤ
  webhookUrl : String
  webhookSecret : String
  assignCredential : Bool
  credentialPlanType : String
  status : BatchStatus

/-- `CreateCodesParams`: a row that `CreateCodes` inserts, which is a code and its batch. -/
structure CreateCodesParams where
  batchId : ℕ
  code : String

/-- `CreateCredentialParams`: the columns that an import sets; a new credential is unused. -/
structure CreateCredentialParams where
  email : String
  planType : String
  expired : Option Time
  data : Json

/-- `CreateRedemptionParams`: the columns of the row that is written about every redemption. -/
structure CreateRedemptionParams where
  codeId : Option ℕ
  batchId : Option ℕ
  codeText : String
  userId : String
  userKey : String
  payloadSnapshot : Json
  result : RedemptionResult
  message : String
  webhookStatus : WebhookStatus
  webhookAttempt : ℤ
  ip : String
  idempotencyKey : Option String
  eventId : Option String

/-- `UpdateRedemptionWebhookStatusParams`: the report, and the event that the row must still have.
-/
structure UpdateRedemptionWebhookStatusParams where
  webhookStatus : WebhookStatus
  webhookResponse : List UInt8
  id : ℕ
  eventId : String

/-- The parameters of `UpdateWebhookOutboxSuccess` and `UpdateWebhookOutboxFailed`; the first one
sets the status `success` and no schedule. -/
structure UpdateWebhookOutboxParams where
  status : WebhookStatus
  lastResponse : List UInt8
  scheduledAt : Option Time
  id : ℕ
  leaseToken : Option String

/-- The queries of `db/queries/queries.sql` that the programs of the service ask. -/
inductive Query where
  | createBatch (p : CreateBatchParams)
  | getBatchByID (id : ℕ)
  | toggleBatchStatus (id : ℕ)
  | createCodes (ps : List CreateCodesParams)
  | getCodeByCode (code : String)
  | getCodeByCodeForUpdate (id : ℕ)
  | toggleCodeStatus (id : ℕ)
  | incrementCodeUseCount (id : ℕ) (useCount : ℤ)
  | createIdempotencyKey (key : String) (requestHash : List UInt8)
  | lockIdempotencyKeyByKey (key : String)
  | setIdempotencyResponse (key : String) (responseBody : Json)
  | createRedemption (p : CreateRedemptionParams)
  | getRedemptionByID (id : ℕ)
  | updateRedemptionWebhookStatus (p : UpdateRedemptionWebhookStatusParams)
  | prepareRedemptionWebhookResend (id : ℕ) (eventId : String)
  | createWebhookOutboxEvent (eventId : String) (redemptionId : ℕ)
  | leaseWebhookOutboxEvent (leaseToken : String)
  | updateWebhookOutbox (p : UpdateWebhookOutboxParams)
  | createCredential (p : CreateCredentialParams)
  | deleteCredential (id : ℕ)
  | getUnusedCredential (planType : String)
  | markCredentialUsed (id redemptionId : ℕ)
  | countAvailableCredentialsByPlan (planType : String)

/-- What the queries return: `none` is `pgx.ErrNoRows`, a number the rows that were changed. -/
abbrev Query.Ans : Query → Type
  | .createBatch _ => Batch
  | .getBatchByID _ => Option Batch
  | .toggleBatchStatus _ => Option Batch
  | .createCodes _ => ℕ
  | .getCodeByCode _ => Option (Code × Batch)
  | .getCodeByCodeForUpdate _ => Option Code
  | .toggleCodeStatus _ => Option Code
  | .incrementCodeUseCount _ _ => Option (ℕ × ℤ)
  | .createIdempotencyKey _ _ => Option IdempotencyKey
  | .lockIdempotencyKeyByKey _ => Option IdempotencyKey
  | .setIdempotencyResponse _ _ => Unit
  | .createRedemption _ => Redemption
  | .getRedemptionByID _ => Option Redemption
  | .updateRedemptionWebhookStatus _ => ℕ
  | .prepareRedemptionWebhookResend _ _ => ℕ
  | .createWebhookOutboxEvent _ _ => WebhookOutbox
  | .leaseWebhookOutboxEvent _ => Option WebhookOutbox
  | .updateWebhookOutbox _ => ℕ
  | .createCredential _ => Credential
  | .deleteCredential _ => ℕ
  | .getUnusedCredential _ => Option Credential
  | .markCredentialUsed _ _ => Option Credential
  | .countAvailableCredentialsByPlan _ => ℕ

/-- The row that `CreateBatch` inserts, under the next `id` of the sequence. -/
def CreateBatchParams.row (p : CreateBatchParams) (payload : Json) (id : ℕ) : Batch :=
  { id
    name := p.name
    description := p.description
    payloadJson := payload
    codePrefix := p.codePrefix
    codeLength := p.codeLength
    expiresAt := p.expiresAt
    maxUsesPerCode := p.maxUsesPerCode
    maxRedeemsPerUser := p.maxRedeemsPerUser
    webhookUrl := p.webhookUrl
    webhookSecret := p.webhookSecret
    assignCredential := p.assignCredential
    credentialPlanType := p.credentialPlanType
    status := p.status }

/-- The `CHECK` constraints on `batches`, one field for each of them. -/
structure Batch.Checks (b : Batch) : Prop where
  name : 1 ≤ b.name.length ∧ b.name.length ≤ 200
  description : b.description.length ≤ 1000
  codePrefix : upperAlphanumeric b.codePrefix = true ∧ b.codePrefix.length ≤ 8
  codeLength : 8 ≤ b.codeLength ∧ b.codeLength ≤ 20
  maxUses : 1 ≤ b.maxUsesPerCode ∧ b.maxUsesPerCode ≤ 100000
  maxRedeems : 1 ≤ b.maxRedeemsPerUser ∧ b.maxRedeemsPerUser ≤ 100000
  webhookUrl : b.webhookUrl.length ≤ 2000
  plan : b.credentialPlanType.length ≤ 100
  planRequired : b.assignCredential = true → 0 < (trimFunc (· = ' ') b.credentialPlanType).length

/-- The `CHECK` constraints on `batches`, and that its texts can be stored. -/
structure Batch.Valid (b : Batch) : Prop extends b.Checks where
  texts : storable b.name ∧ storable b.description ∧ storable b.webhookUrl ∧
    storable b.webhookSecret ∧ storable b.credentialPlanType
  payload : b.payloadJson.hasNul = false

instance (b : Batch) : Decidable b.Checks :=
  decidable_of_iff
    ((1 ≤ b.name.length ∧ b.name.length ≤ 200) ∧ b.description.length ≤ 1000 ∧
      (upperAlphanumeric b.codePrefix = true ∧ b.codePrefix.length ≤ 8) ∧
      (8 ≤ b.codeLength ∧ b.codeLength ≤ 20) ∧
      (1 ≤ b.maxUsesPerCode ∧ b.maxUsesPerCode ≤ 100000) ∧
      (1 ≤ b.maxRedeemsPerUser ∧ b.maxRedeemsPerUser ≤ 100000) ∧
      b.webhookUrl.length ≤ 2000 ∧ b.credentialPlanType.length ≤ 100 ∧
      (b.assignCredential = true → 0 < (trimFunc (· = ' ') b.credentialPlanType).length))
    ⟨fun ⟨h1, h2, h3, h4, h5, h6, h7, h8, h9⟩ => ⟨h1, h2, h3, h4, h5, h6, h7, h8, h9⟩,
     fun ⟨h1, h2, h3, h4, h5, h6, h7, h8, h9⟩ => ⟨h1, h2, h3, h4, h5, h6, h7, h8, h9⟩⟩

instance (b : Batch) : Decidable b.Valid :=
  decidable_of_iff
    (b.Checks ∧ (storable b.name ∧ storable b.description ∧ storable b.webhookUrl ∧
      storable b.webhookSecret ∧ storable b.credentialPlanType) ∧ b.payloadJson.hasNul = false)
    ⟨fun ⟨h1, h2, h3⟩ => ⟨h1, h2, h3⟩, fun ⟨h1, h2, h3⟩ => ⟨h1, h2, h3⟩⟩

/-- The constraint `chk_code_format`: the length and the characters of a code. -/
def validCode (code : String) : Bool :=
  upperAlphanumeric code && 1 ≤ code.length && code.length ≤ 64

/-- The rows that `CreateCodes` inserts, with their `id`s from `next` on. -/
def codeRows (next : ℕ) : List CreateCodesParams → List Code
  | [] => []
  | p :: ps => ⟨next, p.batchId, p.code, .unused, 0⟩ :: codeRows (next + 1) ps

/-- The row that `CreateCredential` inserts: unused, and handed out by nothing. -/
def CreateCredentialParams.row (p : CreateCredentialParams) (id : ℕ) : Credential :=
  { id, email := p.email, planType := p.planType, expired := p.expired, data := p.data
    used := false, redemptionId := none }

/-- The constraints on `credentials`, and that its texts can be stored. -/
def CreateCredentialParams.valid (p : CreateCredentialParams) : Bool :=
  1 ≤ p.email.length && p.email.length ≤ 320 && 1 ≤ p.planType.length && p.planType.length ≤ 100 &&
    storable p.email && storable p.planType && !p.data.hasNul

/-- The constraint `chk_idempotency_key_length`, and that the key can be stored. -/
def validKey (key : String) : Bool := 1 ≤ key.length && key.length ≤ 128 && storable key

/-- The row that `CreateRedemption` inserts, with the time of its transaction. -/
def CreateRedemptionParams.row (p : CreateRedemptionParams) (id : ℕ) (now : Time) : Redemption :=
  { id
    codeId := p.codeId
    batchId := p.batchId
    codeText := p.codeText
    userId := p.userId
    userKey := p.userKey
    payloadSnapshot := p.payloadSnapshot
    result := p.result
    message := p.message
    webhookStatus := p.webhookStatus
    webhookResponse := ""
    webhookAttempt := p.webhookAttempt
    ip := p.ip
    idempotencyKey := p.idempotencyKey
    eventId := p.eventId
    createdAt := now }

/-- The `CHECK` constraints on `redemptions`, and that its texts can be stored. -/
def CreateRedemptionParams.valid (p : CreateRedemptionParams) : Bool :=
  p.codeText.length ≤ 128 && p.userId.length ≤ 256 && p.userKey.length ≤ 256 &&
    p.message.length ≤ 500 && 0 ≤ p.webhookAttempt && (p.eventId.all fun e => e.length ≤ 64) &&
    storable p.codeText && storable p.userId && storable p.userKey && storable p.message &&
    (p.eventId.all fun e => storable e) && !p.payloadSnapshot.hasNul

/-- The rows that a redemption refers to exist: the foreign keys of `redemptions`. -/
def CreateRedemptionParams.references (p : CreateRedemptionParams) (T : Tables) : Bool :=
  (p.codeId.all fun id => (T.codes.get? id).isSome) &&
    (p.batchId.all fun id => (T.batches.get? id).isSome) &&
    (p.idempotencyKey.all fun key => (T.keys.get? key).isSome)

/-- A credential that `GetUnusedCredential` may return: unused, not expired and of the plan, every
plan when none is given. -/
def Credential.available (c : Credential) (now : Time) (planType : String) : Bool :=
  !c.used && (c.expired.all fun t => now < t) && (planType = "" || c.planType = planType)

/-- An outbox row that `LeaseWebhookOutboxEvent` may return: due, and not leased. -/
def WebhookOutbox.due (o : WebhookOutbox) (now : Time) : Bool :=
  (o.status = .pending || o.status = .failed) && o.scheduledAt ≤ now &&
    (o.leaseExpiresAt.all fun t => t ≤ now)

/-- The row that `CreateWebhookOutboxEvent` inserts: pending, due at once, and not leased. -/
def newOutboxEvent (id : ℕ) (eventId : String) (redemptionId : ℕ) (now : Time) : WebhookOutbox :=
  { id, eventId, redemptionId, status := .pending, scheduledAt := now, leaseToken := none
    leaseExpiresAt := none, attempts := 0, lastResponse := "" }

/-- The time for which an event is leased: two minutes. -/
def leaseTime : Time := 2 * 60 * 1000000

/-- What a statement does for an answer of type `A`, if the choice is one that it has. -/
abbrev Outcome (A : Type) := Option (Except Failure (Effect Seqs Write Lock A))

/-- The statement fails, for a constraint that it would violate or a value that it cannot store. -/
def reject {A : Type} : Outcome A := some (.error .failed)

/-- The statement only reads: it has an answer, and it changes and locks nothing. -/
def answer {A : Type} (ctx : Ctx Tables Seqs Lock) (a : A) : Outcome A :=
  some (.ok ⟨a, [], [], ctx.seq⟩)

/-- A query with `FOR UPDATE SKIP LOCKED LIMIT 1`: one of the rows that satisfy the condition and
are not locked, and no row only if there is none. Which one is left open, because a row that is
unlocked while the query runs may have been skipped before. -/
def skipLocked {R A : Type} [HasKey R ℕ] (ctx : Ctx Tables Seqs Lock) (t : Table R) (p : R → Bool)
    (lock : ℕ → Lock) (pick : ℕ) (none' : A) (found : R → Effect Seqs Write Lock A) : Outcome A :=
  let rows := t.rows.filter fun r => p r && !ctx.busy (lock (key r))
  if rows.isEmpty then answer ctx none'
  else (rows.find? fun r => key r = pick).map fun r => .ok (found r)

/-- What PostgreSQL does for a query: its answer, the changes, the locks, and the sequences
afterwards. -/
def Query.exec (ctx : Ctx Tables Seqs Lock) : (q : Query) → Choice → Outcome q.Ans
  | .createBatch p, _ =>
    match p.payloadJson with
    | none => reject
    | some payload =>
      let b := p.row payload ctx.seq.batches
      if b.Valid then
        some (.ok ⟨b, [.createBatch b], [.batch b.id],
          { ctx.seq with batches := ctx.seq.batches + 1 }⟩)
      else reject
  | .getBatchByID id, _ => answer ctx (ctx.view.batches.get? id)
  | .toggleBatchStatus id, _ =>
    match ctx.view.batches.get? id with
    | none => answer ctx none
    | some b => some (.ok ⟨some b.toggleStatus, [.toggleBatchStatus id], [.batch id], ctx.seq⟩)
  | .createCodes ps, _ =>
    let rows := codeRows ctx.seq.codes ps
    if (rows.all fun c => validCode c.code && (ctx.view.batches.get? c.batchId).isSome &&
        ctx.view.codes.rows.all fun c' => c'.code ≠ c.code) ∧ (rows.map Code.code).Nodup then
      some (.ok ⟨rows.length, rows.map .createCode,
        rows.map (fun c => .code c.id) ++ rows.map fun c => .codeText c.code,
        { ctx.seq with codes := ctx.seq.codes + rows.length }⟩)
    else reject
  | .getCodeByCode code, _ =>
    answer ctx ((ctx.view.codes.rows.find? fun c => c.code = code).bind fun c =>
      (ctx.view.batches.get? c.batchId).map fun b => (c, b))
  | .getCodeByCodeForUpdate id, _ =>
    match ctx.view.codes.get? id with
    | none => answer ctx none
    | some c => some (.ok ⟨some c, [], [.code id], ctx.seq⟩)
  | .toggleCodeStatus id, _ =>
    match ctx.view.codes.get? id with
    | none => answer ctx none
    | some c => some (.ok ⟨some c.toggleStatus, [.toggleCodeStatus id], [.code id], ctx.seq⟩)
  | .incrementCodeUseCount id useCount, _ =>
    match ctx.view.codes.get? id with
    | none => answer ctx none
    | some c =>
      if c.status = .unused ∧ c.useCount < useCount then
        some (.ok ⟨some (id, c.useCount + 1), [.incrementCodeUseCount id], [.code id], ctx.seq⟩)
      else answer ctx none
  | .createIdempotencyKey k requestHash, _ =>
    if validKey k then
      match ctx.view.keys.get? k with
      | some _ => answer ctx none
      | none =>
        some (.ok ⟨some ⟨k, requestHash, none⟩, [.createIdempotencyKey ⟨k, requestHash, none⟩],
          [.key k], ctx.seq⟩)
    else reject
  | .lockIdempotencyKeyByKey k, _ =>
    match ctx.view.keys.get? k with
    | none => answer ctx none
    | some row => some (.ok ⟨some row, [], [.key k], ctx.seq⟩)
  | .setIdempotencyResponse k body, _ =>
    if body.hasNul then reject
    else
      match ctx.view.keys.get? k with
      | none => answer ctx ()
      | some _ => some (.ok ⟨(), [.setIdempotencyResponse k body], [.key k], ctx.seq⟩)
  | .createRedemption p, _ =>
    let r := p.row ctx.seq.redemptions ctx.now
    if p.valid && p.references ctx.view &&
        (p.eventId.all fun e => ctx.view.redemptions.rows.all fun r' => r'.eventId ≠ some e) then
      some (.ok ⟨r, [.createRedemption r],
        .redemption r.id :: r.eventId.toList.map .redemptionEvent,
        { ctx.seq with redemptions := ctx.seq.redemptions + 1 }⟩)
    else reject
  | .getRedemptionByID id, _ => answer ctx (ctx.view.redemptions.get? id)
  | .updateRedemptionWebhookStatus p, _ =>
    match textOfBytes? p.webhookResponse with
    | none => reject
    | some response =>
      match ctx.view.redemptions.get? p.id with
      | none => answer ctx 0
      | some r =>
        if r.eventId = some p.eventId then
          if response.length ≤ 500 then
            some (.ok ⟨1, [.updateRedemptionWebhookStatus p.id ⟨p.webhookStatus, response⟩],
              [.redemption p.id], ctx.seq⟩)
          else reject
        else answer ctx 0
  | .prepareRedemptionWebhookResend id eventId, _ =>
    match ctx.view.redemptions.get? id with
    | none => answer ctx 0
    | some r =>
      if r.result = .success ∧ r.webhookStatus ∈ [.success, .failed, .deadLetter] then
        if eventId.length ≤ 64 && storable eventId &&
            ctx.view.redemptions.rows.all fun r' => r'.eventId ≠ some eventId then
          some (.ok ⟨1, [.prepareRedemptionWebhookResend id eventId],
            [.redemption id, .redemptionEvent eventId], ctx.seq⟩)
        else reject
      else answer ctx 0
  | .createWebhookOutboxEvent eventId redemptionId, _ =>
    let o := newOutboxEvent ctx.seq.outbox eventId redemptionId ctx.now
    if eventId.length ≤ 64 && storable eventId &&
        (ctx.view.redemptions.get? redemptionId).isSome &&
        ctx.view.outbox.rows.all fun o' => o'.eventId ≠ eventId then
      some (.ok ⟨o, [.createWebhookOutboxEvent o], [.outbox o.id, .outboxEvent eventId],
        { ctx.seq with outbox := ctx.seq.outbox + 1 }⟩)
    else reject
  | .leaseWebhookOutboxEvent token, c =>
    skipLocked ctx ctx.view.outbox (fun o => o.due ctx.now) .outbox c.pick none fun o =>
      ⟨some (o.lease token (ctx.now + leaseTime)),
        [.leaseWebhookOutboxEvent o.id token (ctx.now + leaseTime)], [.outbox o.id], ctx.seq⟩
  | .updateWebhookOutbox p, _ =>
    match textOfBytes? p.lastResponse with
    | none => reject
    | some response =>
      match ctx.view.outbox.get? p.id with
      | none => answer ctx 0
      | some o =>
        if o.leaseToken.isSome ∧ o.leaseToken = p.leaseToken then
          if response.length ≤ 500 then
            some (.ok ⟨1, [.updateWebhookOutbox p.id ⟨p.status, response, p.scheduledAt⟩],
              [.outbox p.id], ctx.seq⟩)
          else reject
        else answer ctx 0
  | .createCredential p, _ =>
    let row := p.row ctx.seq.credentials
    if p.valid then
      some (.ok ⟨row, [.createCredential row], [.credential row.id],
        { ctx.seq with credentials := ctx.seq.credentials + 1 }⟩)
    else reject
  | .deleteCredential id, _ =>
    match ctx.view.credentials.get? id with
    | none => answer ctx 0
    | some _ => some (.ok ⟨1, [.deleteCredential id], [.credential id], ctx.seq⟩)
  | .getUnusedCredential planType, c =>
    skipLocked ctx ctx.view.credentials (fun r => r.available ctx.now planType) .credential c.pick
      none fun r => ⟨some r, [], [.credential r.id], ctx.seq⟩
  | .markCredentialUsed id redemptionId, _ =>
    match ctx.view.credentials.get? id with
    | none => answer ctx none
    | some c =>
      if (ctx.view.redemptions.get? redemptionId).isSome then
        some (.ok ⟨some (c.markUsed redemptionId), [.markCredentialUsed id redemptionId],
          [.credential id], ctx.seq⟩)
      else reject
  | .countAvailableCredentialsByPlan planType, _ =>
    answer ctx (ctx.view.credentials.count fun c =>
      c.planType = planType && !c.used && c.expired.all fun t => ctx.now < t)

/-- The database of the service: the tables with their changes, and what each query does. -/
def postgres : Dbms Tables Seqs Write Lock Query Env Choice Query.Ans Env.Ans where
  apply := Tables.apply
  exec := Query.exec
  env := Env.answer

end CdkSystem
