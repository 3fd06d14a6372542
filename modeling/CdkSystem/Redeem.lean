import CdkSystem.Go

/-!
# Redeeming a code

`Service.Redeem` of `internal/redeem/service.go` and the functions that it calls, with their
messages and errors. The function is cut at its early returns: `redeem` checks the input and opens
the transaction, `redeemTx` handles the idempotency key, `redeemCode` looks up and checks the code,
`redeemAvailable` takes a credential, and `succeed` makes the changes of a success.
-/

namespace CdkSystem

open RowLock

/-- `MaxCodeLength`: the bytes that a normalized code may have. -/
def maxCodeLength : ℕ := 128

/-- `MaxUserIDLength`: the characters that a user's name may have. -/
def maxUserIDLength : ℕ := 256

/-- `MaxIdempotencyKeyLength`: the bytes that an idempotency key may have. -/
def maxIdempotencyKeyLength : ℕ := 128

/-- `RedeemRequest`; the idempotency key is empty when there is none. -/
structure RedeemRequest where
  userID : String
  code : String
  idempotencyKey : String
  ip : String
  deriving DecidableEq

/-- The text `Result` of a response. The service itself writes only labels of results; a response
that it has decoded from a stored body can have another text, which is empty when the body has none.
-/
inductive ResultText where
  | known (result : RedemptionResult)
  | other (text : String) (h : RedemptionResult.ofLabel? text = none)
  deriving DecidableEq

/-- The text of a result, which is what stands in the JSON. -/
def ResultText.label : ResultText → String
  | known result => result.label
  | other text _ => text

/-- The result with this text, one of the known ones if there is one. -/
def ResultText.ofText (text : String) : ResultText :=
  match h : RedemptionResult.ofLabel? text with
  | some result => known result
  | none => other text h

/-- A result is given back by its text. -/
@[simp]
theorem ResultText.ofText_label (result : ResultText) : ofText result.label = result := by
  cases result with
  | known result =>
    have hlabel : RedemptionResult.ofLabel? (known result).label = some result :=
      RedemptionResult.ofLabel?_label result
    unfold ofText
    split
    · rename_i result' h
      rw [hlabel, Option.some.injEq] at h
      rw [h]
    · rename_i h
      rw [hlabel] at h
      cases h
  | other text hother =>
    have hlabel : RedemptionResult.ofLabel? (other text hother).label = none := hother
    unfold ofText
    split
    · rename_i result' h
      rw [hlabel] at h
      cases h
    · rfl

/-- `RedeemResponse`. The fields `eventID` and `webhookPending` are not in its JSON. -/
structure RedeemResponse where
  ok : Bool
  result : ResultText
  message : String
  batch : String
  code : String
  userID : String
  payload : Option Json
  credential : Option Json
  redeemedAt : String
  eventID : String
  webhookPending : Bool

/-- `json.Marshal` on a response: the fields in the order of the struct, without those that are
empty. -/
def RedeemResponse.marshal (r : RedeemResponse) : Json :=
  .obj <| [("ok", .bool r.ok), ("result", .str r.result.label), ("message", .str r.message)] ++
    (Json.omitEmpty "batch" r.batch ++ (Json.omitEmpty "code" r.code ++
      (Json.omitEmpty "user_id" r.userID ++ (Json.omitNone "payload" r.payload ++
        (Json.omitNone "credential" r.credential ++ (Json.omitEmpty "redeemed_at" r.redeemedAt ++
          []))))))

/-- `json.Unmarshal` into a response. A field that is missing has the zero value of its type. -/
def RedeemResponse.unmarshal : Json → Option RedeemResponse
  | .obj fields => do
    let ok ← Json.boolField fields "ok"
    let result ← Json.stringField fields "result"
    let message ← Json.stringField fields "message"
    let batch ← Json.stringField fields "batch"
    let code ← Json.stringField fields "code"
    let userID ← Json.stringField fields "user_id"
    let redeemedAt ← Json.stringField fields "redeemed_at"
    some
      { ok, result := .ofText result, message, batch, code, userID
        payload := fields.lookup "payload"
        credential := fields.lookup "credential"
        redeemedAt
        eventID := ""
        webhookPending := false }
  | _ => none

/-- What of a response is in its JSON. -/
def RedeemResponse.visible (r : RedeemResponse) : RedeemResponse :=
  { r with eventID := "", webhookPending := false }

/-- A response that is written to JSON and read back is the same, except for the two fields that are
not in the JSON. -/
theorem RedeemResponse.unmarshal_marshal (r : RedeemResponse) :
    unmarshal r.marshal = some r.visible := by
  simp [unmarshal, marshal, visible, Json.stringField_cons_of_ne, Json.stringField_omitEmpty_of_ne,
    Json.stringField_omitNone_of_ne, Json.stringField_omitEmpty, Json.stringField_omitEmpty_last,
    Json.lookup_cons_of_ne, Json.lookup_omitEmpty_of_ne, Json.lookup_omitNone_of_ne,
    Json.lookup_omitNone, Json.lookup_omitEmpty_last_of_ne]

/-- `failure`: a response that is not ok, with the result and the message and nothing else. -/
def failure (result : RedemptionResult) (message : String) : RedeemResponse :=
  { ok := false, result := .known result, message, batch := "", code := "", userID := ""
    payload := none, credential := none, redeemedAt := "", eventID := "", webhookPending := false }

/-- `NormalizeUserKey`: a user's name in lower case, without the white space and what cannot be
printed at its ends. -/
def normalizeUserKey (rt : Runtime) (raw : String) : String :=
  trimFunc (fun c => !rt.isPrint c || isSpace c) (rt.toLower (trimSpace raw))

/-- `validIdempotencyKey`: there is no key, or it is trimmed and not too long. -/
def validIdempotencyKey (key : String) : Bool :=
  key = "" || (byteLength key ≤ maxIdempotencyKeyLength && key = trimSpace key)

/-- The bytes that `hashRequest` hashes: the user and the normalized code, with a NUL between them.
-/
def RedeemRequest.hashed (req : RedeemRequest) : List UInt8 :=
  bytesOfText req.userID ++ 0 :: bytesOfText (normalizeCode req.code)

/-- `hashRequest`: the SHA-256 of those bytes, with which a key's row is compared. -/
def hashRequest (rt : Runtime) (req : RedeemRequest) : List UInt8 := rt.sha256 req.hashed

/-- `equalHash` compares without leaving the loop early. -/
def equalHash (a b : List UInt8) : Bool :=
  a.length = b.length && (List.zipWith (· ^^^ ·) a b).foldl (· ||| ·) 0 = 0

/-- Joining bytes gives zero only if all of them are zero. -/
theorem foldl_or_eq_zero (bytes : List UInt8) (acc : UInt8) :
    bytes.foldl (· ||| ·) acc = 0 ↔ acc = 0 ∧ ∀ b ∈ bytes, b = 0 := by
  induction bytes generalizing acc with
  | nil => simp
  | cons b bs ih =>
    rw [List.foldl_cons, ih, UInt8.or_eq_zero_iff, and_assoc]
    simp

/-- The comparison is equality, although it looks at every byte of both hashes. -/
theorem equalHash_iff (a b : List UInt8) : equalHash a b = true ↔ a = b := by
  unfold equalHash
  rw [Bool.and_eq_true, decide_eq_true_eq, decide_eq_true_eq, foldl_or_eq_zero]
  induction a generalizing b with
  | nil => cases b <;> simp
  | cons x xs ih =>
    cases b with
    | nil => simp
    | cons y ys =>
      have := ih ys
      simp only [true_and] at this
      simp only [List.length_cons, Nat.add_right_cancel_iff, List.zipWith_cons_cons,
        List.forall_mem_cons, true_and, UInt8.xor_eq_zero_iff, List.cons.injEq, ← this]
      tauto

/-- `stringPtr`: an empty text becomes nil, which is stored as `NULL`. -/
def stringPtr (s : String) : Option String := if s = "" then none else some s

/-- `pgTextToInet`: an address that cannot be parsed is stored as `0.0.0.0`. -/
def pgTextToInet (rt : Runtime) (ip : String) : String :=
  if ip = "" then "0.0.0.0" else (rt.parseAddr ip).getD "0.0.0.0"

/-- `webhookStatus` of a new redemption: pending if an event will be delivered for it. -/
def webhookStatus (pending : Bool) : WebhookStatus := if pending then .pending else .none

/-- `newEventID`: sixteen random bytes, under which the event of a webhook is known. -/
def newEventID : Go String := Go.env (.randomHex 16)

/-- The event of a success: there is one if the batch has a webhook. -/
def successEventID (b : Batch) : Go String :=
  if b.webhookUrl ≠ "" then newEventID else pure ""

/-- `checkCodeState` at the time `now`: the first reason for which the code cannot be redeemed. -/
def checkCodeState (now : Time) (c : Code) (b : Batch) : Option RedeemResponse :=
  if c.status = .disabled then some (failure .codeDisabled "该兑换码已被禁用")
  else if b.status = .disabled then some (failure .batchDisabled "该兑换码所属批次已停用")
  else if b.expiresAt.any (· < now) then some (failure .expired "该兑换码已过期")
  else if b.maxUsesPerCode ≤ c.useCount then some (failure .codeUsedUp "该兑换码已被使用完")
  else none

/-- `storeIdempotencyResponse`, called only when there is a key. -/
def storeIdempotencyResponse (key : String) (resp : RedeemResponse) : Go Unit :=
  if key = "" then pure () else Go.query .database .tx (.setIdempotencyResponse key resp.marshal)

/-- The common part of `handleIdempotency` and `handleBatchIdempotency`: the key's row is inserted,
or else locked and its response returned, if it has one. -/
def claimKey {α : Type} (t : Slot) (create lock unmarshal : String) (key : String)
    (requestHash : List UInt8) (decode : Json → Option α) : Go (Option α) := do
  let created ← Go.query (.wrap create .database) t (.createIdempotencyKey key requestHash)
  match created with
  | some _ => return none
  | none =>
    let existing ← Go.query (.wrap lock .database) t (.lockIdempotencyKeyByKey key)
    match existing with
    | none => throw (.wrap lock .noRows)
    | some row =>
      if equalHash row.requestHash requestHash = false then throw .idempotencyConflict
      else
        match row.responseBody with
        | none => return none
        | some body =>
          match decode body with
          | none => throw (.wrap unmarshal (.text "invalid JSON"))
          | some resp => return some resp

/-- `handleIdempotency`: the stored response of the key, if there is one. -/
def handleIdempotency (rt : Runtime) (req : RedeemRequest) : Go (Option RedeemResponse) :=
  claimKey .tx "create idempotency key" "lock idempotency key" "unmarshal idempotency response"
    req.idempotencyKey (hashRequest rt req) RedeemResponse.unmarshal

/-- What `recordFailure` and the success path write for a request. -/
def redemptionParams (rt : Runtime) (req : RedeemRequest) (code userKey : String)
    (codeID batchID : Option ℕ) (payload : Json) (result : RedemptionResult) (message : String)
    (status : WebhookStatus) (eventID : String) : CreateRedemptionParams :=
  { codeId := codeID
    batchId := batchID
    codeText := code
    userId := req.userID
    userKey := userKey
    payloadSnapshot := payload
    result := result
    message := message
    webhookStatus := status
    webhookAttempt := 0
    ip := pgTextToInet rt req.ip
    idempotencyKey := stringPtr req.idempotencyKey
    eventId := stringPtr eventID }

/-- `recordFailure`. The column of the result is an enumeration, so PostgreSQL takes no other text.
-/
def recordFailure (rt : Runtime) (req : RedeemRequest) (code userKey : String)
    (codeID batchID : Option ℕ) (resp : RedeemResponse) : Go Unit :=
  match resp.result with
  | .other _ _ => throw (.wrap "record failure redemption" .database)
  | .known result => do
    let _ ← Go.query (.wrap "record failure redemption" .database) .tx
      (.createRedemption (redemptionParams rt req code userKey codeID batchID (.obj []) result
        resp.message .none ""))
    storeIdempotencyResponse req.idempotencyKey resp

/-- A business failure: it is recorded, and the transaction is committed. -/
def refuse (rt : Runtime) (req : RedeemRequest) (code userKey : String)
    (codeID batchID : Option ℕ) (resp : RedeemResponse) (commitErr : GoError) :
    Go RedeemResponse := do
  recordFailure rt req code userKey codeID batchID resp
  Go.commit commitErr .tx
  return resp

/-- `GetCodeByCode`: the code's row, locked, and its batch. -/
def getCodeByCode (code : String) : Go (Option (Code × Batch)) := do
  let found ← Go.query (.wrap "get code" .database) .tx (.getCodeByCode code)
  match found with
  | none => return none
  | some (c, b) =>
    let locked ← Go.query (.wrap "get code" .database) .tx (.getCodeByCodeForUpdate c.id)
    return locked.map fun c => (c, b)

/-- The outbox event of a success, if the batch has a webhook. -/
def createOutboxEvent (webhookPending : Bool) (eventID : String) (redemptionID : ℕ) : Go Unit :=
  if webhookPending then do
    let _ ← Go.query (.wrap "create outbox event" .database) .tx
      (.createWebhookOutboxEvent eventID redemptionID)
  else pure ()

/-- The credential of a success, if there is one, is marked used. -/
def markCredentialUsed (credential : Option Credential) (redemptionID : ℕ) : Go Unit :=
  match credential with
  | none => pure ()
  | some cred => do
    let marked ← Go.query (.wrap "mark credential used" .database) .tx
      (.markCredentialUsed cred.id redemptionID)
    match marked with
    | none => throw (.wrap "mark credential used" .noRows)
    | some _ => pure ()

/-- The response of a success, with the document of the batch and of the credential if one is handed
out. -/
def successResponse (rt : Runtime) (req : RedeemRequest) (code : String) (b : Batch)
    (credential : Option Credential) (redeemedAt : Time) (eventID : String) : RedeemResponse :=
  { ok := true
    result := .known .success
    message := "兑换成功 🎉"
    batch := b.name
    code := displayCode code b.codePrefix
    userID := req.userID
    payload := some b.payloadJson
    credential := credential.map Credential.data
    redeemedAt := rt.formatDateTime redeemedAt
    eventID := eventID
    webhookPending := b.webhookUrl ≠ "" }

/-- The changes of a success, from the use count to the commit. -/
def succeed (rt : Runtime) (req : RedeemRequest) (code userKey : String) (c : Code) (b : Batch)
    (credential : Option Credential) : Go RedeemResponse := do
  let counted ← Go.query (.wrap "increment code use count" .database) .tx
    (.incrementCodeUseCount c.id b.maxUsesPerCode)
  match counted with
  | none => throw (.text "code state changed while row was locked")
  | some _ =>
    let redeemedAt ← Go.env .now
    let eventID ← successEventID b
    let redemption ← Go.query (.wrap "create redemption" .database) .tx
      (.createRedemption (redemptionParams rt req code userKey (some c.id) (some c.batchId)
        b.payloadJson .success "兑换成功 🎉" (webhookStatus (b.webhookUrl ≠ "")) eventID))
    createOutboxEvent (b.webhookUrl ≠ "") eventID redemption.id
    markCredentialUsed credential redemption.id
    let resp := successResponse rt req code b credential redeemedAt eventID
    storeIdempotencyResponse req.idempotencyKey resp
    Go.commit (.wrap "commit transaction" .database) .tx
    return resp

/-- A code that passed the checks: a credential is taken if the batch assigns one. -/
def redeemAvailable (rt : Runtime) (req : RedeemRequest) (code userKey : String) (c : Code)
    (b : Batch) : Go RedeemResponse :=
  if b.assignCredential then do
    let cred ← Go.query (.wrap "get unused credential" .database) .tx
      (.getUnusedCredential b.credentialPlanType)
    match cred with
    | none =>
      refuse rt req code userKey (some c.id) (some c.batchId)
        (failure .credentialUnavailable "当前套餐凭证库存不足，请稍后重试")
        (.wrap "commit credential unavailable result" .database)
    | some cred => succeed rt req code userKey c b (some cred)
  else succeed rt req code userKey c b none

/-- The code is looked up, locked and checked. -/
def redeemCode (rt : Runtime) (req : RedeemRequest) (code userKey : String) :
    Go RedeemResponse := do
  let found ← getCodeByCode code
  match found with
  | none =>
    refuse rt req code userKey none none (failure .invalidCode "兑换码无效，请核对后重试") .database
  | some (c, b) =>
    let now ← Go.env .now
    match checkCodeState now c b with
    | some resp => refuse rt req code userKey (some c.id) (some c.batchId) resp .database
    | none => redeemAvailable rt req code userKey c b

/-- The part of `Redeem` in the transaction. -/
def redeemTx (rt : Runtime) (req : RedeemRequest) (code userKey : String) :
    Go RedeemResponse :=
  if req.idempotencyKey = "" then redeemCode rt req code userKey
  else do
    let stored ← handleIdempotency rt req
    match stored with
    | some resp => return resp
    | none => redeemCode rt req code userKey

/-- The checks of the input, on the trimmed user and the normalized code. -/
def checkInput (req : RedeemRequest) (code : String) : Option RedeemResponse :=
  if req.userID = "" ∨ code = "" then some (failure .invalidInput "请输入邮箱和兑换码")
  else if maxUserIDLength < req.userID.length then some (failure .invalidInput "邮箱过长")
  else if maxCodeLength < byteLength code then some (failure .invalidInput "兑换码过长")
  else if validIdempotencyKey req.idempotencyKey = false then
    some (failure .invalidInput "幂等 key 无效或过长")
  else none

/-- The request with its user trimmed, which is the one that all further steps work on. -/
def RedeemRequest.trimmed (req : RedeemRequest) : RedeemRequest :=
  { req with userID := trimSpace req.userID }

/-- `Service.Redeem`: the input is checked before any transaction, and the rest is `redeemCode`. -/
def redeem (rt : Runtime) (req : RedeemRequest) : Go RedeemResponse :=
  match checkInput req.trimmed (normalizeCode req.code) with
  | some resp => pure resp
  | none => do
    Go.begin (.wrap "begin transaction" .database) .tx
    Go.deferRollback .tx
      (redeemTx rt req.trimmed (normalizeCode req.code) (normalizeUserKey rt req.trimmed.userID))

end CdkSystem
