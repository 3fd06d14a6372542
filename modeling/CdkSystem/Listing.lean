import CdkSystem.Admin
import CdkSystem.Integers
import CdkSystem.Lib.Paging

/-!
# The lists of codes and redemptions

`ListCodes` and `ListLogs` of `internal/httpapi/admin.go` with their queries. The queries read
tables; a negative `OFFSET` is an error of PostgreSQL, which the handlers answer with 500. Of the
answers, what only repeats other rows is left out.

The page is read from the query parameter with `strconv.Atoi`, and everything that is no positive
number counts as the first page. The offset is converted to 32 bits because the generated code of
the queries takes an `int32`. The sort of `ListLogs` is by time alone, so a list of its rows is one
of the orders that agree with the times (`LogOrder`).
-/

namespace CdkSystem

open Relational Paging
open RowLock (Time)

variable {α : Type}

/-- The part `LIMIT limit OFFSET offset` of a query. -/
def sqlPage (limit offset : ℤ) (rows : List α) : Option (List α) :=
  if limit < 0 ∨ offset < 0 then none else some (slice limit.toNat offset.toNat rows)

/-- `perPage` of `ListCodes` and `ListLogs`, which both lists share. -/
def perPage : ℕ := 50

/-- The page that `ListCodes` and `ListLogs` answer with; errors of `Atoi` are ignored. -/
def pageNumber (page : String) : ℤ := if (atoi page).1 < 1 then 1 else (atoi page).1

/-- The offset that `ListCodes` and `ListLogs` pass for a page: `int32((page - 1) * perPage)`. -/
def listOffset (page : ℤ) : ℤ := toInt32 (toInt64 (toInt64 (page - 1) * perPage))

/-! ## Codes -/

/-- The states of codes in the administration. -/
inductive CodeState where
  | active
  | partused
  | used
  | disabled
  deriving DecidableEq, Repr

/-- The text of a state, as the query returns it and the filter names it. -/
def CodeState.label : CodeState → String
  | active => "active"
  | partused => "partused"
  | used => "used"
  | disabled => "disabled"

/-- The `CASE` of `ListCodesByBatch`, `ListCodesByBatchAndState` and `CountCodesByBatchAndState`. -/
def codeState (c : Code) (b : Batch) : CodeState :=
  if c.status = .disabled then .disabled
  else if b.maxUsesPerCode ≤ c.useCount then .used
  else if 0 < c.useCount then .partused
  else .active

/-- `ListCodesByBatchRow`: a code with its state, as the query has computed it. -/
structure ListCodesByBatchRow where
  code : Code
  state : String
  deriving DecidableEq

/-- The codes of a batch joined with it. -/
def codesOfBatch (T : Tables) (batchID : ℤ) : List (Code × Batch) :=
  (T.codes.rows.filter fun c => (c.batchId : ℤ) = batchID).filterMap fun c =>
    (T.batches.get? c.batchId).map fun b => (c, b)

/-- A joined row as it is selected. -/
def codeRow (row : Code × Batch) : ListCodesByBatchRow := ⟨row.1, (codeState row.1 row.2).label⟩

/-- `ORDER BY c.id DESC`: the latest code comes first, and no two have the same place. -/
def byCodeId (rows : List ListCodesByBatchRow) : List ListCodesByBatchRow :=
  rows.mergeSort fun a b => b.code.id ≤ a.code.id

/-- `ListCodesByBatch`: a page of all codes of a batch, and nothing for a negative offset. -/
def listCodesByBatch (T : Tables) (batchID limit offset : ℤ) : Option (List ListCodesByBatchRow) :=
  sqlPage limit offset (byCodeId ((codesOfBatch T batchID).map codeRow))

/-- `ListCodesByBatchAndState`: a page of the codes of a batch that are in a state. -/
def listCodesByBatchAndState (T : Tables) (batchID : ℤ) (state : String) (limit offset : ℤ) :
    Option (List ListCodesByBatchRow) :=
  sqlPage limit offset (byCodeId
    (((codesOfBatch T batchID).filter fun row =>
      (codeState row.1 row.2).label = state).map codeRow))

/-- `CountCodesByBatch`: the number of the codes of a batch, read without a join. -/
def countCodesByBatch (T : Tables) (batchID : ℤ) : ℕ :=
  T.codes.count fun c => (c.batchId : ℤ) = batchID

/-- `CountCodesByBatchAndState`: the number of the codes of a batch that are in a state. -/
def countCodesByBatchAndState (T : Tables) (batchID : ℤ) (state : String) : ℕ :=
  (codesOfBatch T batchID).countP fun row => (codeState row.1 row.2).label = state

/-- `GetBatchCountsRow`: the numbers that the administration shows about a batch. -/
structure BatchCounts where
  total : ℕ
  disabled : ℕ
  usedup : ℕ
  totalUses : ℤ

/-- `GetBatchCounts`: the codes of a batch in all, the disabled and the used ones, and the uses
together. -/
def getBatchCounts (T : Tables) (batchID : ℤ) : BatchCounts :=
  let rows := codesOfBatch T batchID
  { total := rows.length
    disabled := rows.countP fun row => row.1.status = .disabled
    usedup := rows.countP fun row =>
      row.2.maxUsesPerCode ≤ row.1.useCount && row.1.status ≠ .disabled
    totalUses := (rows.map fun row => row.1.useCount).sum }

/-- `GetBatchByID`, for an `id` that a request has sent and that may be any integer. -/
def batchByID (T : Tables) (id : ℤ) : Option Batch := T.batches.rows.find? fun b => (b.id : ℤ) = id

/-- The answer of `ListCodes`: the codes of the page, and the numbers that the page shows. -/
structure CodesReply where
  codes : List ListCodesByBatchRow
  maxUses : ℤ
  total : ℕ
  page : ℤ
  pages : ℕ

/-- The end of `ListCodes`, after the queries for the codes and their number. -/
def codesReply (T : Tables) (batchID page : ℤ) (codes : Option (List ListCodesByBatchRow))
    (total : ℕ) : Except Reply CodesReply :=
  match codes with
  | none => .error (respondError 500 "获取兑换码失败" [])
  | some codes =>
    match batchByID T batchID with
    | none => .error (respondError 500 "获取批次失败" [])
    | some batch =>
      .ok { codes, maxUses := batch.maxUsesPerCode, total, page, pages := pageCount total perPage }

/-- What `ListCodes` reads of a request: the path parameter and the query parameters. -/
structure ListCodesRequest where
  id : String
  page : String
  state : String

/-- The handler `ListCodes`: a batch that is no number and an unknown state are refused. -/
def listCodes (T : Tables) (req : ListCodesRequest) : Except Reply CodesReply :=
  let batchID := parseInt req.id 64
  if batchID.2 ≠ none then .error (respondError 400 "无效批次 ID" [])
  else
    let page := pageNumber req.page
    let state := if req.state = "" then "all" else req.state
    if state = "all" then
      codesReply T batchID.1 page (listCodesByBatch T batchID.1 perPage (listOffset page))
        (countCodesByBatch T batchID.1)
    else if state ∉ ["active", "partused", "used", "disabled"] then
      .error (respondError 400 "无效的状态筛选" [])
    else
      codesReply T batchID.1 page
        (listCodesByBatchAndState T batchID.1 state perPage (listOffset page))
        (countCodesByBatchAndState T batchID.1 state)

/-! ## Redemptions -/

/-- The label of a webhook status, as the enumeration of the database spells it. -/
def WebhookStatus.label : WebhookStatus → String
  | none => "none"
  | pending => "pending"
  | success => "success"
  | failed => "failed"
  | deadLetter => "dead_letter"

/-- The filters of `ListRedemptions` and `CountRedemptions`; an empty one lets every row pass. -/
structure LogFilters where
  batchID : ℤ
  result : String
  webhook : String
  user : String
  deriving DecidableEq

/-- The condition of `ListRedemptions` and `CountRedemptions`; `ilike` is PostgreSQL's operator on a
text and a pattern. -/
def LogFilters.matches (ilike : String → String → Bool) (f : LogFilters) (r : Redemption) : Bool :=
  (f.batchID = 0 || r.batchId.any fun id => (id : ℤ) = f.batchID) &&
    (f.result = "" || r.result.label = f.result) &&
    (f.webhook = "" || r.webhookStatus.label = f.webhook) &&
    (f.user = "" || ilike r.userKey ("%" ++ f.user ++ "%"))

/-- Whether PostgreSQL accepts the filters as texts. -/
def LogFilters.storable (f : LogFilters) : Bool :=
  CdkSystem.storable f.result && CdkSystem.storable f.webhook && CdkSystem.storable f.user

/-- `ListRedemptionsRow`: a redemption as the administration lists it. -/
structure ListRedemptionsRow where
  id : ℕ
  createdAt : Time
  batchName : Option String
  code : String
  userId : String
  result : RedemptionResult
  message : String
  webhookStatus : WebhookStatus
  webhookResponse : String
  ip : String
  deriving DecidableEq

/-- The row of a redemption, with the name of its batch if it has one. -/
def logRow (T : Tables) (r : Redemption) : ListRedemptionsRow :=
  { id := r.id
    createdAt := r.createdAt
    batchName := (r.batchId.bind T.batches.get?).map Batch.name
    code := r.codeText
    userId := r.userId
    result := r.result
    message := r.message
    webhookStatus := r.webhookStatus
    webhookResponse := r.webhookResponse
    ip := r.ip }

/-- The rows of the redemptions that match. -/
def matchingLogs (ilike : String → String → Bool) (T : Tables) (f : LogFilters) :
    List ListRedemptionsRow :=
  (T.redemptions.rows.filter fun r => f.matches ilike r).map (logRow T)

/-- `ListRedemptions`, for the order of the matching rows that PostgreSQL has chosen. -/
def listRedemptions (order : List ListRedemptionsRow) (f : LogFilters) (limit offset : ℤ) :
    Option (List ListRedemptionsRow) :=
  if f.storable then sqlPage limit offset order else none

/-- `CountRedemptions`: the number of the rows that match, whatever page is shown. -/
def countRedemptions (ilike : String → String → Bool) (T : Tables) (f : LogFilters) : Option ℕ :=
  if f.storable then some (T.redemptions.count fun r => f.matches ilike r) else none

/-- The orders that `ORDER BY r.created_at DESC` allows. -/
def LogOrder (ilike : String → String → Bool) (T : Tables) (f : LogFilters)
    (order : List ListRedemptionsRow) : Prop :=
  SortedBy ListRedemptionsRow.createdAt (matchingLogs ilike T f) order

/-- The answer of `ListLogs`: the rows of the page, and the numbers that the page shows. -/
structure LogsReply where
  logs : List ListRedemptionsRow
  total : ℕ
  page : ℤ
  pages : ℕ

/-- The query parameters of `ListLogs`, as the texts that a request has sent. -/
structure ListLogsRequest where
  batchID : String
  result : String
  webhook : String
  userID : String
  page : String

/-- The filters of a request; a batch that is no number is ignored. -/
def ListLogsRequest.filters (req : ListLogsRequest) : LogFilters :=
  { batchID :=
      if req.batchID ≠ "" ∧ (parseInt req.batchID 64).2 = none then (parseInt req.batchID 64).1
      else 0
    result := req.result
    webhook := req.webhook
    user := req.userID }

/-- The handler `ListLogs`, for the order of the matching rows that PostgreSQL has chosen. -/
def listLogs (ilike : String → String → Bool) (T : Tables) (order : List ListRedemptionsRow)
    (req : ListLogsRequest) : Except Reply LogsReply :=
  let page := pageNumber req.page
  match listRedemptions order req.filters perPage (listOffset page) with
  | none => .error (respondError 500 "获取日志失败" [])
  | some logs =>
    match countRedemptions ilike T req.filters with
    | none => .error (respondError 500 "获取日志失败" [])
    | some total => .ok { logs, total, page, pages := pageCount total perPage }

end CdkSystem
