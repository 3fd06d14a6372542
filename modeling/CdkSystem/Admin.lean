import CdkSystem.Go

/-!
# Administration

The handlers of `internal/httpapi` that change batches, codes, credentials and webhook events, and
`internal/batch`, which creates a batch with its codes. A handler answers with an HTTP status, a
message and details; the parts of the answer that only repeat rows are left out.

A handler is cut where the source returns early: the validation of a request, the check of the
inventory, the transaction that inserts the batch and its codes, and the answer. The characters that
the random source draws are given in advance as a list, and the loop that skips codes which it has
drawn before does not end (`diverge`) when the list does.
-/

namespace CdkSystem

open RowLock

/-- What a handler answers: the status, the message, and the details that a refusal lists. -/
structure Reply where
  status : ℕ
  message : String
  details : List String
  deriving DecidableEq

/-- `RespondJSON` with status 200, as far as the properties look at its body. -/
def respondOK (message : String) : Reply := ⟨200, message, []⟩

/-- `RespondError` of `internal/httpapi`: a refusal with its status, its message and what it lists
as details. -/
def respondError (status : ℕ) (message : String) (details : List String) : Reply :=
  ⟨status, message, details⟩

/-! ## Batches -/

/-- `alphabet` of `internal/batch`: the capital letters and digits that are not taken for one
another. -/
def alphabet : List Char := "ABCDEFGHJKMNPQRSTUVWXYZ23456789".toList

/-- The alphabet is not empty, so a character can always be drawn from it. -/
instance neZero_alphabet : NeZero 31 := ⟨by decide⟩

/-- `createBatchRequest` of the handler: the fields of the body from which a batch is created. -/
structure CreateBatchRequest where
  name : String
  description : String
  payloadJSON : String
  codePrefix : String
  codeLength : ℤ
  count : ℤ
  maxUsesPerCode : ℤ
  maxRedeemsPerUser : ℤ
  expiresAt : Option String
  webhookURL : String
  webhookSecret : String
  assignCredential : Bool
  credentialPlanType : String

/-- `randomCode` on a stream of random indices into the alphabet, and what it leaves of it. -/
def randomCode : ℕ → List (Fin 31) → Option (List Char × List (Fin 31))
  | 0, draws => some ([], draws)
  | _ + 1, [] => none
  | length + 1, d :: draws =>
    (randomCode length draws).map fun r => (alphabet.getD d 'A' :: r.1, r.2)

/-- The loop of `generateCodes` with a bound on its turns: codes that were drawn before are skipped.
There is no result when the random indices do not suffice. -/
def generateCodesFrom (codePrefix : String) (length count : ℕ) :
    ℕ → List String → List (Fin 31) → Option (List String)
  | fuel, codes, draws =>
    if count ≤ codes.length then some codes
    else
      match fuel with
      | 0 => none
      | fuel + 1 =>
        match randomCode length draws with
        | none => none
        | some (cs, rest) =>
          let code := codePrefix ++ String.ofList cs
          if code ∈ codes then generateCodesFrom codePrefix length count fuel codes rest
          else generateCodesFrom codePrefix length count fuel (codes ++ [code]) rest

/-- `generateCodes`: a turn of the loop takes at least one random index, or it never ends. -/
def generateCodes (codePrefix : String) (length count : ℕ) (draws : List (Fin 31)) :
    Option (List String) :=
  generateCodesFrom codePrefix length count (draws.length + 1) [] draws

/-- The parameters with which `batch.CreateBatch` inserts a batch. -/
def CreateBatchRequest.params (rt : Runtime) (req : CreateBatchRequest)
    (expiresAt : Option Time) : CreateBatchParams :=
  { name := req.name
    description := req.description
    payloadJson := rt.parseJson (if req.payloadJSON = "" then "{}" else req.payloadJSON)
    codePrefix := toUpper req.codePrefix
    codeLength := req.codeLength
    expiresAt := expiresAt
    maxUsesPerCode := req.maxUsesPerCode
    maxRedeemsPerUser := req.maxRedeemsPerUser
    webhookUrl := req.webhookURL
    webhookSecret := req.webhookSecret
    assignCredential := req.assignCredential
    credentialPlanType := trimSpace req.credentialPlanType
    status := .active }

/-- `batch.CreateBatch` in the transaction of `createBatch`: the row of the batch, and then the
codes that the loop has drawn. -/
def createBatchTx (rt : Runtime) (req : CreateBatchRequest) (expiresAt : Option Time)
    (draws : List (Fin 31)) : Go ℕ := do
  let b ← Go.query (.wrap "create batch" .database) .tx (.createBatch (req.params rt expiresAt))
  match generateCodes (toUpper req.codePrefix) req.codeLength.toNat req.count.toNat draws with
  | none =>
    let never ← Go.env .diverge
    nomatch never
  | some codes =>
    let inserted ← Go.query (.wrap "create codes" .database) .tx
      (.createCodes (codes.map fun code => ⟨b.id, code⟩))
    if inserted ≠ codes.length then throw (.text "create codes: inserted too few")
    else
      Go.commit (.wrap "commit transaction" .database) .tx
      return b.id

/-- `createBatch`: the transaction around `batch.CreateBatch`, with its deferred rollback and its
commit. -/
def createBatch (rt : Runtime) (req : CreateBatchRequest) (expiresAt : Option Time)
    (draws : List (Fin 31)) : Go ℕ := do
  Go.begin (.wrap "begin transaction" .database) .tx
  Go.deferRollback .tx (createBatchTx rt req expiresAt draws)

/-- `unicode.IsControl`: the control characters of ASCII and of Latin-1, which are all that there
are. -/
def isControl (c : Char) : Bool := c.toNat < 0x20 || (0x7F ≤ c.toNat && c.toNat < 0xA0)

/-- `normalizeCredentialPlanType`, on a text that is valid UTF-8. -/
def normalizeCredentialPlanType (value : String) : Except String String :=
  if (trimSpace value).length < 1 ∨ 100 < (trimSpace value).length then
    .error "套餐类型长度必须为 1-100 个字符"
  else if (trimSpace value).toList.any isControl then .error "套餐类型不能包含控制字符"
  else .ok (trimSpace value)

/-- A text when a condition holds: one line of a validation that collects its messages. -/
def errorIf (condition : Bool) (message : String) : List String :=
  if condition then [message] else []

/-- `isASCIIAlphanumeric`: there is nothing in the text but letters and digits of ASCII. -/
def isASCIIAlphanumeric (value : String) : Bool :=
  value.toList.all fun c => ('A' ≤ c && c ≤ 'Z') || ('0' ≤ c && c ≤ '9')

/-- The errors of `validateCreateBatch` about the webhook. -/
def webhookErrors (rt : Runtime) (req : CreateBatchRequest) : List String :=
  if req.webhookURL = "" then []
  else if 2000 < byteLength req.webhookURL then ["Webhook URL 过长"]
  else errorIf (!rt.validURL req.webhookURL) "Webhook 地址必须是可访问的公网 HTTPS 地址"

/-- The errors of `validateCreateBatch` about the credential plan. -/
def planErrors (req : CreateBatchRequest) : List String :=
  if req.assignCredential then
    match normalizeCredentialPlanType req.credentialPlanType with
    | .error message => [message]
    | .ok _ => []
  else errorIf (100 < req.credentialPlanType.length) "凭证套餐类型过长"

/-- `validateCreateBatch`: the messages of all checks that fail, in the order in which they are
made. -/
def validateCreateBatch (rt : Runtime) (req : CreateBatchRequest) : List String :=
  errorIf (trimSpace req.name = "") "批次名称不能为空" ++
  errorIf (200 < req.name.length) "批次名称不能超过 200 个字符" ++
  errorIf (1000 < req.description.length) "备注说明不能超过 1000 个字符" ++
  errorIf (req.codeLength < 8 || 20 < req.codeLength) "码长度必须在 8-20 之间" ++
  errorIf (req.count < 1 || 10000 < req.count) "生成数量必须在 1-10000 之间" ++
  errorIf (req.maxUsesPerCode < 1 || 100000 < req.maxUsesPerCode) "单码可用次数必须在 1-100000 之间" ++
  errorIf (req.maxRedeemsPerUser < 1 || 100000 < req.maxRedeemsPerUser)
    "用户限兑次数必须在 1-100000 之间" ++
  errorIf (8 < byteLength req.codePrefix) "前缀长度不能超过 8" ++
  errorIf (req.codePrefix ≠ "" && !isASCIIAlphanumeric req.codePrefix) "前缀只能包含英文字母和数字" ++
  webhookErrors rt req ++
  errorIf (512 < byteLength req.webhookSecret) "Webhook 密钥不能超过 512 个字符" ++
  planErrors req ++
  errorIf (req.payloadJSON ≠ "" && (rt.parseJson req.payloadJSON).isNone) "奖励内容必须是合法 JSON"

/-- The request as the handler normalises it. -/
def CreateBatchRequest.normalized (req : CreateBatchRequest) : CreateBatchRequest :=
  { req with
    name := trimSpace req.name
    codePrefix := toUpper (trimSpace req.codePrefix)
    webhookURL := trimSpace req.webhookURL
    credentialPlanType := trimSpace req.credentialPlanType }

/-- The time of `expires_at`: nothing when none is given, an error (`none`) when it is no time. -/
def CreateBatchRequest.expiry (rt : Runtime) (req : CreateBatchRequest) : Option (Option Time) :=
  match req.expiresAt with
  | none | some "" => some none
  | some s => (rt.parseTime s).map some

/-- The secret of a batch's webhook: a random one if there is a webhook without a secret. -/
def chooseSecret (req : CreateBatchRequest) : M String :=
  if req.webhookURL ≠ "" ∧ req.webhookSecret = "" then ask (.randomHex 16)
  else return req.webhookSecret

/-- The end of `CreateBatch`, after the checks. -/
def createCheckedBatch (rt : Runtime) (req : CreateBatchRequest) (expiresAt : Option Time)
    (draws : List (Fin 31)) : M Reply := do
  match ← (createBatch rt req expiresAt draws).run with
  | .error _ => return respondError 500 "创建批次失败" []
  | .ok _ => return respondOK "批次创建成功"

/-- `CreateBatch`, on a decoded request: it is normalized, validated, checked against the inventory,
and then created. -/
def createBatchHandler (rt : Runtime) (request : CreateBatchRequest) (draws : List (Fin 31)) :
    M Reply :=
  let req := request.normalized
  if validateCreateBatch rt req ≠ [] then
    return respondError 400 "输入校验失败" (validateCreateBatch rt req)
  else
    match req.expiry rt with
    | none => return respondError 400 "过期时间格式错误" []
    | some expiresAt => do
      let secret ← chooseSecret req
      let req := { req with webhookSecret := secret }
      if req.assignCredential then
        match ←
            (Go.auto .database (.countAvailableCredentialsByPlan req.credentialPlanType)).run with
        | .error _ => return respondError 500 "检查凭证库存失败" []
        | .ok available =>
          if available < 1 then return respondError 400 "所选套餐没有可用凭证" []
          else createCheckedBatch rt req expiresAt draws
      else createCheckedBatch rt req expiresAt draws

/-- `statusText`: the word under which the answer of a toggle names the state of a batch. -/
def statusText (status : BatchStatus) : String := if status = .active then "启用" else "停用"

/-- `codeStatusText`: the word under which the answer of a toggle names the state of a code. -/
def codeStatusText (status : CodeStatus) : String := if status = .unused then "启用" else "禁用"

/-- `ToggleBatch`: one statement that turns the state of a batch over, and 500 where there is none
to turn. -/
def toggleBatch (id : ℕ) : M Reply := do
  match ← (Go.auto .database (.toggleBatchStatus id)).run with
  | .ok (some b) => return respondOK ("批次已" ++ statusText b.status)
  | _ => return respondError 500 "切换批次状态失败" []

/-- `ToggleCode`: one statement that turns the state of a code over, and 500 where there is none to
turn. -/
def toggleCode (id : ℕ) : M Reply := do
  match ← (Go.auto .database (.toggleCodeStatus id)).run with
  | .ok (some c) => return respondOK ("兑换码已" ++ codeStatusText c.status)
  | _ => return respondError 500 "切换码状态失败" []

/-! ## Webhooks -/

/-- The statements of `ResendWebhook`'s transaction: whether the redemption could be prepared. -/
def resendTx (id : ℕ) (eventID : String) : Go Bool := do
  let affected ← Go.query (.text "prepare webhook resend failed") .tx
    (.prepareRedemptionWebhookResend id eventID)
  if affected ≠ 1 then return false
  else
    let _ ← Go.query (.text "create resend outbox event failed") .tx
      (.createWebhookOutboxEvent eventID id)
    Go.commit (.text "commit webhook resend failed") .tx
    return true

/-- The transaction of `ResendWebhook` from its beginning. -/
def resend (id : ℕ) (eventID : String) : Go Bool := do
  Go.begin (.text "begin webhook resend transaction failed") .tx
  Go.deferRollback .tx (resendTx id eventID)

/-- The end of `ResendWebhook`, after the checks. -/
def resendChecked (id : ℕ) (eventID : String) : M Reply := do
  match ← (resend id eventID).run with
  | .error _ => return respondError 500 "创建重推任务失败" []
  | .ok false => return respondError 409 "Webhook 正在投递中，请稍后重试" []
  | .ok true => return respondOK "Webhook 重推任务已创建"

/-- `ResendWebhook`: the checks on a redemption and its batch, and then the transaction that
schedules a new event. -/
def resendWebhook (id : ℕ) : M Reply := do
  match ← (Go.auto .database (.getRedemptionByID id)).run with
  | .ok (some redemption) =>
    if redemption.result ≠ .success then return respondError 400 "只能重推成功的兑换记录" []
    else
      match redemption.batchId with
      | none => return respondError 400 "该记录没有 Webhook 配置" []
      | some batchId =>
        if redemption.webhookStatus = .none then
          return respondError 400 "该记录没有 Webhook 配置" []
        else
          match ← (Go.auto .database (.getBatchByID batchId)).run with
          | .ok (some b) =>
            if b.webhookUrl = "" then return respondError 400 "批次没有 Webhook 配置" []
            else
              let eventID ← ask (.randomHex 16)
              resendChecked id eventID
          | _ => return respondError 500 "获取批次失败" []
  | _ => return respondError 404 "记录不存在" []

/-! ## Credentials -/

/-- `credentialItem` of an upload: a normalized document with its type and its times, ready to be
inserted. -/
abbrev CredentialItem := CreateCredentialParams

/-- The loop of `importCredentials`, which inserts one credential after the other and stops at the
first failure. -/
def createCredentials : List CredentialItem → Go Unit
  | [] => pure ()
  | item :: items => do
    let _ ← Go.query (.wrap "create credential" .database) .tx (.createCredential item)
    createCredentials items

/-- The part of `importCredentials` in the transaction. -/
def importCredentialsTx (items : List CredentialItem) : Go ℕ := do
  createCredentials items
  Go.commit (.wrap "commit transaction" .database) .tx
  return items.length

/-- `importCredentials`: all items in one transaction, which rolls back unless every one of them was
inserted. -/
def importCredentials (items : List CredentialItem) : Go ℕ := do
  Go.begin (.wrap "begin transaction" .database) .tx
  Go.deferRollback .tx (importCredentialsTx items)

/-- `DeleteCredential`: one statement that deletes an unused credential; it succeeds without such a
row, too. -/
def deleteCredential (id : ℕ) : M Reply := do
  match ← (Go.auto .database (.deleteCredential id)).run with
  | .error _ => return respondError 500 "删除失败" []
  | .ok _ => return respondOK "删除成功"

/-- `DeleteCredentialsByIDs` locks and deletes the rows one after another, in the one transaction
of the statement; it returns how many there were. -/
def deleteCredentialsByIDs : List ℕ → Go ℕ
  | [] => return 0
  | id :: ids => do
    let deleted ← Go.query .database .tx (.deleteCredential id)
    let more ← deleteCredentialsByIDs ids
    return deleted + more

/-- The rows are deleted, and then the statement commits. -/
def deleteCredentialsTx (ids : List ℕ) : Go ℕ := do
  let deleted ← deleteCredentialsByIDs ids
  Go.commit .database .tx
  return deleted

/-- The transaction of `DeleteCredentialsByIDs`, which counts the rows that were there to be
deleted. -/
def deleteCredentials (ids : List ℕ) : Go ℕ := do
  Go.begin .database .tx
  Go.deferRollback .tx (deleteCredentialsTx ids)

/-- `BatchDeleteCredentials`: a list that is not empty is deleted in one transaction, and the answer
counts the rows. -/
def batchDeleteCredentials (ids : List ℕ) : M Reply :=
  if ids = [] then return respondError 400 "请选择要删除的凭证" []
  else do
    match ← (deleteCredentials ids).run with
    | .error _ => return respondError 500 "批量删除失败" []
    | .ok deleted => return respondOK ("已删除 " ++ toString deleted ++ " 条凭证")

end CdkSystem
