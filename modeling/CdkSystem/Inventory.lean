import CdkSystem.Listing
import CdkSystem.System

/-!
# The inventory of credentials

The queries that list and count credentials, `GetUnusedCredential` with the order in which it takes
rows, and the handler `ListCredentials` of `internal/httpapi/credentials.go`.

The order in which `GetUnusedCredential` takes the rows is by `id`, and it skips rows that another
transaction has locked. The lists are pages with an `OFFSET`, as for codes and redemptions, but the
page is checked before it is multiplied.
-/

namespace CdkSystem

open Relational Paging
open RowLock (Time Ctx)

/-! ## Plans -/

/-- `ListCredentialPlansRow`: the numbers that the administration shows about one plan. -/
structure ListCredentialPlansRow where
  planType : String
  total : ℕ
  available : ℕ
  used : ℕ
  expired : ℕ
  deriving DecidableEq

/-- `FILTER (WHERE used = false AND (expired IS NULL OR expired > NOW()))`. -/
def Credential.isAvailable (c : Credential) (now : Time) : Bool :=
  !c.used && c.expired.all fun t => now < t

/-- `FILTER (WHERE used = false AND expired IS NOT NULL AND expired <= NOW())`. -/
def Credential.isExpired (c : Credential) (now : Time) : Bool :=
  !c.used && c.expired.any fun t => t ≤ now

/-- The aggregates of a plan: its credentials in all, and how many of them are available, used or
expired. -/
def planRow (T : Tables) (now : Time) (planType : String) : ListCredentialPlansRow :=
  { planType
    total := T.credentials.count fun c => c.planType = planType
    available := T.credentials.count fun c => c.planType = planType && c.isAvailable now
    used := T.credentials.count fun c => c.planType = planType && c.used
    expired := T.credentials.count fun c => c.planType = planType && c.isExpired now }

/-- `ListCredentialPlans`: one row for each plan, in the order of their characters. -/
def listCredentialPlans (T : Tables) (now : Time) : List ListCredentialPlansRow :=
  (((T.credentials.rows.map Credential.planType).dedup.mergeSort fun p q => p ≤ q).map
    (planRow T now))

/-- `CountAvailableCredentialsByPlan`: the number that `CreateBatch` checks against the codes asked
for. -/
def countAvailableCredentialsByPlan (T : Tables) (now : Time) (planType : String) : ℕ :=
  T.credentials.count fun c =>
    c.planType = planType && !c.used && c.expired.all fun t => now < t

/-- `GetUnusedCredential` when `locked` are the credentials that other transactions have locked. -/
def getUnusedCredential (T : Tables) (now : Time) (locked : ℕ → Bool) (planType : String) :
    Option Credential :=
  ((T.credentials.rows.filter fun c => c.available now planType && !locked c.id).mergeSort
    fun a b => a.id ≤ b.id).head?

/-! ## The list -/

/-- `ListCredentialsRow`: a credential without its data, as the list shows it. -/
structure ListCredentialsRow where
  id : ℕ
  email : String
  planType : String
  expired : Option Time
  used : Bool
  redemptionId : Option ℕ
  deriving DecidableEq

/-- The columns that are listed: everything of a credential but its document. -/
def Credential.row (c : Credential) : ListCredentialsRow :=
  { id := c.id, email := c.email, planType := c.planType, expired := c.expired, used := c.used
    redemptionId := c.redemptionId }

/-- The condition of `ListCredentials` and `CountCredentials`: the state that the filter asks for,
if it names one. -/
def Credential.inState (state : String) (c : Credential) : Bool :=
  state = "all" || (state = "used" && c.used = true) || (state = "unused" && c.used = false)

/-- `ListCredentials`: a page of the credentials in a state, from the latest `id` down. -/
def listCredentials (T : Tables) (state : String) (limit offset : ℤ) :
    Option (List ListCredentialsRow) :=
  sqlPage limit offset (((T.credentials.rows.filter (Credential.inState state)).map
    Credential.row).mergeSort fun a b => b.id ≤ a.id)

/-- `CountCredentials`: how many credentials there are in a state. -/
def countCredentials (T : Tables) (state : String) : ℕ :=
  T.credentials.count (Credential.inState state)

/-- `defaultCredentialsPageSize`, which is used when a request names no size. -/
def defaultCredentialsPageSize : ℤ := 50

/-- `allowedCredentialPageSizes`: any other size is refused. -/
def allowedCredentialPageSizes : List ℤ := [20, 50, 100, 200, 500]

/-- The error of `parseCredentialPagination` about the size. -/
def pageSizeError : String := "page_size 必须是 20、50、100、200 或 500"

/-- The size that `parseCredentialPagination` reads, or the message with which it refuses the text.
-/
def credentialPageSize (pageSizeRaw : String) : Except String ℤ :=
  if pageSizeRaw = "" then .ok defaultCredentialsPageSize
  else if (parseInt pageSizeRaw 32).2 ≠ none then .error pageSizeError
  else if toInt32 (parseInt pageSizeRaw 32).1 ∉ allowedCredentialPageSizes then .error pageSizeError
  else .ok (toInt32 (parseInt pageSizeRaw 32).1)

/-- The page that `parseCredentialPagination` reads: 1 unless it is a positive number. -/
def credentialPage (pageRaw : String) : ℤ :=
  if pageRaw ≠ "" ∧ (parseInt pageRaw 64).2 = none ∧ 0 < (parseInt pageRaw 64).1 then
    (parseInt pageRaw 64).1
  else 1

/-- The page, the size and the offset that `parseCredentialPagination` returns. -/
structure CredentialPagination where
  page : ℤ
  pageSize : ℤ
  offset : ℤ
  deriving DecidableEq

/-- `maxOffset`: the largest offset that fits into the `int32` of the query. -/
def maxOffset : ℤ := 2 ^ 31 - 1

/-- `parseCredentialPagination`: the page and the size of a request, or the message with which they
are refused. -/
def parseCredentialPagination (pageRaw pageSizeRaw : String) : Except String CredentialPagination :=
  match credentialPageSize pageSizeRaw with
  | .error message => .error message
  | .ok pageSize =>
    let page := credentialPage pageRaw
    if maxOffset.tdiv pageSize < toInt64 (page - 1) then .error "页码超出范围"
    else .ok
      { page, pageSize, offset := toInt32 (toInt64 (toInt64 (page - 1) * pageSize)) }

/-- What `ListCredentials` reads of a request: the filter, and the page and its size as texts. -/
structure ListCredentialsRequest where
  state : String
  page : String
  pageSize : String

/-- The answer of `ListCredentials`: the rows of the page, with the numbers that the page shows. -/
structure CredentialsReply where
  items : List ListCredentialsRow
  total : ℕ
  page : ℤ
  pages : ℕ
  pageSize : ℤ

/-- The handler `ListCredentials`: the filter and the page are checked, and then the page is read
with the count. -/
def listCredentialsHandler (T : Tables) (req : ListCredentialsRequest) :
    Except Reply CredentialsReply :=
  let state := if req.state = "" then "all" else req.state
  if state ≠ "all" ∧ state ≠ "used" ∧ state ≠ "unused" then
    .error (respondError 400 "无效的状态筛选" [])
  else
    match parseCredentialPagination req.page req.pageSize with
    | .error message => .error (respondError 400 message [])
    | .ok p =>
      match listCredentials T state p.pageSize p.offset with
      | none => .error (respondError 500 "获取凭证列表失败" [])
      | some items =>
        let total := countCredentials T state
        .ok { items, total, page := p.page, pages := pageCount total p.pageSize.toNat
              pageSize := p.pageSize }

/-! ## The queries in the system -/

/-- Of the first row in the order of `id`, there is one exactly if some row satisfies the condition,
and it has the smallest `id`. -/
theorem head?_mergeSort_eq_some {rows : List Credential} {c : Credential}
    (h : (rows.mergeSort fun a b => a.id ≤ b.id).head? = some c) :
    c ∈ rows ∧ ∀ c' ∈ rows, c.id ≤ c'.id := by
  -- Ascending is descending in the dual order.
  have hsorted : (rows.mergeSort fun a b => a.id ≤ b.id).Pairwise fun a b => a.id ≤ b.id :=
    pairwise_mergeSort_desc (fun c : Credential => OrderDual.toDual c.id) rows
  have hperm := List.mergeSort_perm rows fun a b : Credential => decide (a.id ≤ b.id)
  obtain ⟨rest, hrest⟩ := List.head?_eq_some_iff.mp h
  rw [hrest] at hsorted hperm
  refine ⟨hperm.mem_iff.mp List.mem_cons_self, fun c' hc' => ?_⟩
  rcases List.mem_cons.mp (hperm.mem_iff.mpr hc') with rfl | hc'
  · exact le_refl _
  · exact List.rel_of_pairwise_cons hsorted hc'

/-- The credential that is taken can be taken, and no smaller one can. -/
theorem getUnusedCredential_eq_some {T : Tables} {now : Time} {locked : ℕ → Bool} {plan : String}
    {c : Credential} (h : getUnusedCredential T now locked plan = some c) :
    c ∈ T.credentials ∧ c.available now plan = true ∧ locked c.id = false ∧
      ∀ c' ∈ T.credentials, c'.available now plan = true → locked c'.id = false → c.id ≤ c'.id := by
  obtain ⟨hmem, hmin⟩ := head?_mergeSort_eq_some h
  rw [List.mem_filter, Bool.and_eq_true, Bool.not_eq_true'] at hmem
  refine ⟨hmem.1, hmem.2.1, hmem.2.2, fun c' hc' havailable hfree => hmin c' ?_⟩
  rw [List.mem_filter, Bool.and_eq_true, Bool.not_eq_true']
  exact ⟨hc', havailable, hfree⟩

/-- No credential is taken only if none can be. -/
theorem getUnusedCredential_eq_none {T : Tables} {now : Time} {locked : ℕ → Bool} {plan : String} :
    getUnusedCredential T now locked plan = none ↔
      ∀ c ∈ T.credentials, c.available now plan = true → locked c.id = true := by
  unfold getUnusedCredential
  rw [List.head?_eq_none_iff, ← List.length_eq_zero_iff, List.length_mergeSort,
    List.length_eq_zero_iff, List.filter_eq_nil_iff]
  constructor
  · intro h c hc havailable
    by_contra hfree
    exact h c hc (by simp [havailable, hfree])
  · intro h c hc
    by_cases havailable : c.available now plan = true
    · simp [havailable, h c hc havailable]
    · simp [havailable]

/-- The row that is taken in the order of `id` is one that the system's query can return. -/
theorem exec_getUnusedCredential_some {ctx : Ctx Tables Seqs Lock} {plan : String} {c : Credential}
    (h : getUnusedCredential ctx.view ctx.now (fun id => ctx.busy (.credential id)) plan = some c)
    (choice : Choice) :
    Query.exec ctx (.getUnusedCredential plan) { choice with pick := c.id } =
      some (.ok ⟨some c, [], [.credential c.id], ctx.seq⟩) := by
  obtain ⟨hmem, havailable, hfree, -⟩ := getUnusedCredential_eq_some h
  have hrows : c ∈ ctx.view.credentials.rows.filter fun r =>
      r.available ctx.now plan && !ctx.busy (.credential (key r)) := by
    rw [List.mem_filter, Bool.and_eq_true, Bool.not_eq_true']
    exact ⟨hmem, havailable, hfree⟩
  have hnodup : ((ctx.view.credentials.rows.filter fun r =>
      r.available ctx.now plan && !ctx.busy (.credential (key r))).map key).Nodup :=
    ctx.view.credentials.nodup.sublist (List.filter_sublist.map key)
  have hfind := (Table.find?_eq_some_iff hnodup).mpr ⟨hrows, rfl⟩
  have hne : (ctx.view.credentials.rows.filter fun r =>
      r.available ctx.now plan && !ctx.busy (.credential (key r))).isEmpty = false := by
    rw [List.isEmpty_eq_false_iff]
    exact List.ne_nil_of_mem hrows
  have hkey : key c = c.id := rfl
  rw [hkey] at hfind
  unfold Query.exec skipLocked
  simp only [hne, Bool.false_eq_true, if_false, hfind, Option.map_some]

/-- If no row is taken in the order of `id`, the system's query returns none. -/
theorem exec_getUnusedCredential_none {ctx : Ctx Tables Seqs Lock} {plan : String}
    (h : getUnusedCredential ctx.view ctx.now (fun id => ctx.busy (.credential id)) plan = none)
    (choice : Choice) :
    Query.exec ctx (.getUnusedCredential plan) choice = answer ctx none := by
  rw [getUnusedCredential_eq_none] at h
  have hempty : (ctx.view.credentials.rows.filter fun r =>
      r.available ctx.now plan && !ctx.busy (.credential (key r))) = [] := by
    rw [List.filter_eq_nil_iff]
    intro c hc
    by_cases havailable : c.available ctx.now plan = true
    · have hbusy : ctx.busy (.credential (key c)) = true := h c hc havailable
      simp [havailable, hbusy]
    · simp [havailable]
  unfold Query.exec skipLocked
  simp only [hempty, List.isEmpty_nil, if_true]

end CdkSystem
