import CdkSystem.Redeem

/-!
# Redeeming several codes

`Service.BatchRedeem` of `internal/redeem/service.go`. The codes are redeemed one after another,
each by `Redeem` in a transaction of its own. With an idempotency key, an outer transaction holds
the key's row from before the first code until the response is stored.

A code that is empty or too long after normalization, or that repeats an earlier one, is answered
with an item and not redeemed. An error of one redemption ends the batch with that error, and what
was redeemed before stays. The response counts the items as it goes on, in `add`.
-/

namespace CdkSystem

open RowLock

/-- `BatchRedeemRequest` of `internal/redeem`: the user, the codes in their order, the key and the
address. -/
structure BatchRedeemRequest where
  userID : String
  codes : List String
  idempotencyKey : String
  ip : String
  deriving DecidableEq

/-- `BatchRedeemItem`: a code as it was sent, and its result with the message or the redemption. -/
structure BatchRedeemItem where
  code : String
  ok : Bool
  result : ResultText
  message : String
  redemption : Option RedeemResponse

/-- `BatchRedeemResponse`: the items in the order of the codes, with the numbers of successes and
failures. -/
structure BatchRedeemResponse where
  ok : Bool
  message : String
  total : ℕ
  succeeded : ℕ
  failed : ℕ
  results : List BatchRedeemItem

/-- `json.Marshal` on an item: the fields in the order of the struct, without those that are empty.
-/
def BatchRedeemItem.marshal (item : BatchRedeemItem) : Json :=
  .obj <| [("code", .str item.code), ("ok", .bool item.ok), ("result", .str item.result.label),
    ("message", .str item.message)] ++
    (Json.omitNone "redemption" (item.redemption.map RedeemResponse.marshal) ++ [])

/-- `json.Marshal` on a response: the fields in the order of the struct, without those that are
empty. -/
def BatchRedeemResponse.marshal (r : BatchRedeemResponse) : Json :=
  .obj <| [("ok", .bool r.ok)] ++ (Json.omitEmpty "message" r.message ++
    ([("total", .num r.total), ("succeeded", .num r.succeeded), ("failed", .num r.failed)] ++
      (Json.omitNone "results"
        (if r.results = [] then none else some (.arr (r.results.map BatchRedeemItem.marshal))) ++
        [])))

/-- `json.Unmarshal` of the field `redemption`, which is a pointer: an absent one and `null` are
both nil. -/
def unmarshalRedemption : Option Json → Option (Option RedeemResponse)
  | none | some .null => some none
  | some j => (RedeemResponse.unmarshal j).map some

/-- `json.Unmarshal` into an item: an absent field keeps its zero value, and a field of another type
is an error. -/
def BatchRedeemItem.unmarshal : Json → Option BatchRedeemItem
  | .obj fields => do
    let code ← Json.stringField fields "code"
    let ok ← Json.boolField fields "ok"
    let result ← Json.stringField fields "result"
    let message ← Json.stringField fields "message"
    let redemption ← unmarshalRedemption (fields.lookup "redemption")
    some { code, ok, result := .ofText result, message, redemption }
  | _ => none

/-- `json.Unmarshal` of the field `results`: all items are decoded, or none of them. -/
def unmarshalResults : Option Json → Option (List BatchRedeemItem)
  | none | some .null => some []
  | some (.arr items) => items.mapM BatchRedeemItem.unmarshal
  | some _ => none

/-- `json.Unmarshal` into a response. A negative number, which the service never stores, is an error
here. -/
def BatchRedeemResponse.unmarshal : Json → Option BatchRedeemResponse
  | .obj fields => do
    let ok ← Json.boolField fields "ok"
    let message ← Json.stringField fields "message"
    let total ← (Json.intField fields "total").bind Int.toNat?
    let succeeded ← (Json.intField fields "succeeded").bind Int.toNat?
    let failed ← (Json.intField fields "failed").bind Int.toNat?
    let results ← unmarshalResults (fields.lookup "results")
    some { ok, message, total, succeeded, failed, results }
  | _ => none

/-- What of an item is in its JSON. -/
def BatchRedeemItem.visible (item : BatchRedeemItem) : BatchRedeemItem :=
  { item with redemption := item.redemption.map RedeemResponse.visible }

/-- What of a response is in its JSON. -/
def BatchRedeemResponse.visible (r : BatchRedeemResponse) : BatchRedeemResponse :=
  { r with results := r.results.map BatchRedeemItem.visible }

/-- An item that is written to JSON and read back is the same, except for what is not in the
JSON. -/
theorem BatchRedeemItem.unmarshal_marshal (item : BatchRedeemItem) :
    unmarshal item.marshal = some item.visible := by
  have hr : unmarshalRedemption (item.redemption.map RedeemResponse.marshal) =
      some (item.redemption.map RedeemResponse.visible) := by
    cases item.redemption with
    | none => rfl
    | some r =>
      rw [Option.map_some, Option.map_some, ← Option.map_some (f := some),
        ← RedeemResponse.unmarshal_marshal]
      rfl
  simp [unmarshal, marshal, visible, Json.stringField_cons_of_ne, Json.boolField_cons_of_ne,
    Json.lookup_cons_of_ne, Json.lookup_omitNone_last, hr]

/-- A response that is written to JSON and read back is the same, except for what is not in the
JSON. -/
theorem BatchRedeemResponse.unmarshal_marshal (r : BatchRedeemResponse) :
    unmarshal r.marshal = some r.visible := by
  have hitems : ∀ items : List BatchRedeemItem,
      (items.map BatchRedeemItem.marshal).mapM BatchRedeemItem.unmarshal =
        some (items.map BatchRedeemItem.visible) := by
    intro items
    induction items with
    | nil => rfl
    | cons item items ih =>
      simp [BatchRedeemItem.unmarshal_marshal, ih]
  have hr : unmarshalResults
      (if r.results = [] then none else some (.arr (r.results.map BatchRedeemItem.marshal))) =
        some (r.results.map BatchRedeemItem.visible) := by
    split_ifs with h
    · rw [h]
      rfl
    · exact hitems r.results
  simp [unmarshal, marshal, visible, Json.stringField_cons_of_ne, Json.stringField_omitEmpty,
    Json.intField_cons_of_ne, Json.intField_omitEmpty_of_ne, Json.lookup_cons_of_ne,
    Json.lookup_omitEmpty_of_ne, Json.lookup_omitNone_last, Json.lookup_omitNone_last_of_ne, hr,
    Int.toNat?]

/-- `batchFailure`: a response without items that refuses the whole batch with a message. -/
def batchFailure (message : String) : BatchRedeemResponse :=
  { ok := false, message, total := 0, succeeded := 0, failed := 0, results := [] }

/-- The bytes that `hashBatchRequest` hashes: the word `batch`, the user and the codes, with a NUL
between them. -/
def BatchRedeemRequest.hashed (req : BatchRedeemRequest) : List UInt8 :=
  bytesOfText "batch\x00" ++ bytesOfText req.userID ++
    req.codes.flatMap fun code => 0 :: bytesOfText (normalizeCode code)

/-- `hashBatchRequest`: the SHA-256 of those bytes, with which a key's row is compared. -/
def hashBatchRequest (rt : Runtime) (req : BatchRedeemRequest) : List UInt8 :=
  rt.sha256 req.hashed

/-- `handleBatchIdempotency`: the stored response of the key, if there is one. -/
def handleBatchIdempotency (rt : Runtime) (req : BatchRedeemRequest) :
    Go (Option BatchRedeemResponse) :=
  claimKey .idempotencyTx "create batch idempotency key" "lock batch idempotency key"
    "unmarshal batch idempotency response" req.idempotencyKey (hashBatchRequest rt req)
    BatchRedeemResponse.unmarshal

/-- `storeBatchIdempotencyResponse`: the response is written into the row of the key, in the
transaction that holds it. -/
def storeBatchIdempotencyResponse (key : String) (resp : BatchRedeemResponse) : Go Unit :=
  Go.query (.wrap "store batch idempotency response" .database) .idempotencyTx
    (.setIdempotencyResponse key resp.marshal)

/-- What is wrong with a code before `Redeem` is called, given the codes seen so far. -/
def itemError (seen : List String) (normalized : String) : Option String :=
  if normalized = "" then some "兑换码不能为空"
  else if maxCodeLength < byteLength normalized then some "兑换码过长"
  else if normalized ∈ seen then some "兑换码重复，已跳过"
  else none

/-- The request with which `BatchRedeem` calls `Redeem` for a code. -/
def BatchRedeemRequest.item (req : BatchRedeemRequest) (code : String) : RedeemRequest :=
  { userID := req.userID, code, idempotencyKey := "", ip := req.ip }

/-- The item of a code for which `Redeem` is not called. -/
def skippedItem (inputCode message : String) : BatchRedeemItem :=
  { code := trimSpace inputCode, ok := false, result := .known .invalidInput, message
    redemption := none }

/-- The item of a response of `Redeem`. -/
def itemOf (inputCode : String) (resp : RedeemResponse) : BatchRedeemItem :=
  { code := if resp.ok then resp.code else trimSpace inputCode
    ok := resp.ok
    result := resp.result
    message := resp.message
    redemption := if resp.ok then some resp else none }

/-- One code of the request: its item, and the codes seen after it. -/
def redeemItem (rt : Runtime) (req : BatchRedeemRequest) (seen : List String)
    (inputCode : String) : Go (List String × BatchRedeemItem) :=
  match itemError seen (normalizeCode inputCode) with
  | some message => return (seen, skippedItem inputCode message)
  | none => do
    let resp ← Go.withContext ("redeem batch code \"" ++ normalizeCode inputCode ++ "\"")
      (redeem rt (req.item inputCode))
    return (normalizeCode inputCode :: seen, itemOf inputCode resp)

/-- The response with one item more, which is counted as a success or as a failure. -/
def BatchRedeemResponse.add (r : BatchRedeemResponse) (item : BatchRedeemItem) :
    BatchRedeemResponse :=
  { r with
    succeeded := if item.ok then r.succeeded + 1 else r.succeeded
    failed := if item.ok then r.failed else r.failed + 1
    results := r.results ++ [item] }

/-- The loop over the codes, which passes on the codes that were seen and the response so far. -/
def redeemCodes (rt : Runtime) (req : BatchRedeemRequest) (seen : List String)
    (resp : BatchRedeemResponse) : List String → Go BatchRedeemResponse
  | [] => return resp
  | inputCode :: rest => do
    let r ← redeemItem rt req seen inputCode
    redeemCodes rt req r.1 (resp.add r.2) rest

/-- The response before the first code: no items, and nothing counted yet. -/
def BatchRedeemRequest.start (req : BatchRedeemRequest) : BatchRedeemResponse :=
  { ok := true, message := "批量兑换处理完成", total := req.codes.length, succeeded := 0, failed := 0
    results := [] }

/-- The part of `BatchRedeem` in the transaction that holds the key. -/
def batchRedeemTx (rt : Runtime) (req : BatchRedeemRequest) : Go BatchRedeemResponse := do
  let stored ← handleBatchIdempotency rt req
  match stored with
  | some resp => return resp
  | none =>
    let resp ← redeemCodes rt req [] req.start req.codes
    storeBatchIdempotencyResponse req.idempotencyKey resp
    Go.commit (.wrap "commit batch idempotency transaction" .database) .idempotencyTx
    return resp

/-- The checks of the input, on the trimmed user. -/
def checkBatchInput (req : BatchRedeemRequest) : Option BatchRedeemResponse :=
  if req.userID = "" then some (batchFailure "请输入邮箱")
  else if maxUserIDLength < req.userID.length then some (batchFailure "邮箱过长")
  else if req.codes = [] then some (batchFailure "请至少输入一个兑换码")
  else if validIdempotencyKey req.idempotencyKey = false then
    some (batchFailure "幂等 key 无效或过长")
  else none

/-- The request with its user trimmed, which is the one that all further steps work on. -/
def BatchRedeemRequest.trimmed (req : BatchRedeemRequest) : BatchRedeemRequest :=
  { req with userID := trimSpace req.userID }

/-- `Service.BatchRedeem`: the validation, and then the loop over the codes, in the transaction of a
key if there is one. -/
def batchRedeem (rt : Runtime) (req : BatchRedeemRequest) : Go BatchRedeemResponse :=
  match checkBatchInput req.trimmed with
  | some resp => pure resp
  | none =>
    if req.idempotencyKey = "" then
      redeemCodes rt req.trimmed [] req.trimmed.start req.codes
    else do
      Go.begin (.wrap "begin batch idempotency transaction" .database) .idempotencyTx
      Go.deferRollback .idempotencyTx (batchRedeemTx rt req.trimmed)

end CdkSystem
