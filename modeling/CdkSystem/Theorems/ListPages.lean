import CdkSystem.Theorems.CodeStates

/-!
# The pages of codes and redemptions

`ListCodes` and `ListLogs` compute their offset as `int32((page - 1) * perPage)` without a guard.
The offset is exact up to page 42949673 and on no page after it (`list_offsets_exact_iff`).

`ListRedemptions` sorts by `created_at` alone, which leaves the order of redemptions of one time
open, and open anew for each page. All pages together show every redemption once exactly if no page
boundary is between two redemptions of one time (`logs_shown_once_iff`).

Both results compare the pages that the handlers show with slices of one list. The examples are
pages of a batch with five codes, and two redemptions that were imported with the same time.
-/

namespace CdkSystem

open RowLock Relational Paging

variable {α : Type} {T : Tables} {ilike : String → String → Bool} {page : ℤ}

/-! ## Offsets -/

/-- The page of a request is at least one, and an `int64`. -/
theorem pageNumber_bounds (s : String) : 1 ≤ pageNumber s ∧ pageNumber s < 2 ^ 63 := by
  have hbounds : -(2 : ℤ) ^ 63 ≤ (parseInt s 64).1 ∧ (parseInt s 64).1 < 2 ^ 63 := parseInt_bounds s
  unfold pageNumber atoi
  split_ifs with hlt
  · norm_num
  · constructor
    · omega
    · norm_num
      omega

/-- The page of a request is small if the number that is read is. -/
theorem pageNumber_le_iff (s : String) : pageNumber s ≤ 42949673 ↔ (atoi s).1 ≤ 42949673 := by
  unfold pageNumber
  split_ifs with hlt
  · constructor <;> intro <;> omega
  · exact Iff.rfl

/-- The page of a number is the number. -/
theorem pageNumber_toString {k : ℕ} (h : k + 1 < 2 ^ 63) :
    pageNumber (toString (k + 1)) = k + 1 := by
  have hread := atoi_toString h
  unfold pageNumber
  rw [hread]
  push_cast
  split_ifs with hlt
  · omega
  · rfl

/-- The offset of a page is that of its first row, as a non-negative 32-bit value. -/
structure ExactOffset (page : ℤ) : Prop where
  eq : listOffset page = (page - 1) * perPage
  nonneg : 0 ≤ listOffset page
  lt : listOffset page < 2 ^ 31

/-- The offset is exact on the pages up to 42949673. -/
theorem exactOffset_iff (h : 1 ≤ page) (h' : page < 2 ^ 63) : ExactOffset page ↔
    page ≤ 42949673 := by
  constructor
  · intro hexact
    have heq := hexact.eq
    have hlt := hexact.lt
    rw [heq] at hlt
    unfold perPage at hlt
    norm_num at hlt
    omega
  · intro hle
    have hoffset : listOffset page = (page - 1) * perPage := by
      unfold listOffset perPage
      rw [toInt64_eq (x := page - 1) (by norm_num; omega) (by norm_num; omega),
        toInt64_eq (by norm_num; omega) (by norm_num; omega),
        toInt32_eq (by norm_num; omega) (by norm_num; omega)]
    refine ⟨hoffset, ?_, ?_⟩
    · rw [hoffset]
      unfold perPage
      norm_num
      omega
    · rw [hoffset]
      unfold perPage
      norm_num
      omega

/-- With an exact offset, the query returns the page. -/
theorem ExactOffset.sqlPage_eq (h : ExactOffset page) (rows : List α) :
    sqlPage perPage (listOffset page) rows =
      some (slice perPage ((page - 1).toNat * perPage) rows) := by
  have hnonneg := h.nonneg
  have heq := h.eq
  unfold sqlPage
  rw [if_neg (by unfold perPage; omega)]
  have hoffset : (listOffset page).toNat = (page - 1).toNat * perPage := by
    unfold perPage at heq ⊢
    omega
  rw [hoffset, Int.toNat_natCast]

/-- With an exact offset, a page after the last one is empty. -/
theorem ExactOffset.beyond (h : ExactOffset page) {rows some' : List α}
    (hquery : sqlPage perPage (listOffset page) rows = some some')
    (hbeyond : (pageCount rows.length perPage : ℤ) < page) : some' = [] := by
  rw [h.sqlPage_eq, Option.some.injEq] at hquery
  rw [← hquery]
  exact slice_eq_nil (by decide) (by omega)

/-- The request is rejected with the status 400, whatever the message is. -/
def Rejected (r : Except Reply α) : Prop := ∃ reply, r = .error reply ∧ reply.status = 400

/-- `ListCodes` passes the exact offset of the page that it reports, or rejects the request, and no
page after the last one has rows. -/
structure CodesPageExact (T : Tables) (req : ListCodesRequest) : Prop where
  offset : Rejected (listCodes T req) ∨ ExactOffset (pageNumber req.page)
  reported : ∀ reply, listCodes T req = .ok reply → reply.page = pageNumber req.page
  beyond : ∀ reply, listCodes T req = .ok reply → reply.pages < reply.page → reply.codes = []

/-- `ListLogs` passes the exact offset of the page that it reports, or rejects the request, and no
page after the last one has rows. -/
structure LogsPageExact (ilike : String → String → Bool) (T : Tables)
    (order : List ListRedemptionsRow) (req : ListLogsRequest) : Prop where
  offset : Rejected (listLogs ilike T order req) ∨ ExactOffset (pageNumber req.page)
  reported : ∀ reply, listLogs ilike T order req = .ok reply → reply.page = pageNumber req.page
  beyond : ∀ reply, listLogs ilike T order req = .ok reply → reply.pages < reply.page →
    reply.logs = []

/-- A request for codes that `ListCodes` rejects. -/
def ListCodesRequest.Invalid (req : ListCodesRequest) : Prop :=
  (parseInt req.id 64).2 ≠ none ∨
    req.state ∉ ["", "all", "active", "partused", "used", "disabled"]

/-- What the end of `ListCodes` answers with. -/
theorem codesReply_ok {batchID : ℤ} {codes : Option (List ListCodesByBatchRow)} {total : ℕ}
    {reply : CodesReply} (h : codesReply T batchID page codes total = .ok reply) :
    codes = some reply.codes ∧ reply.page = page ∧ reply.pages = pageCount total perPage := by
  unfold codesReply at h
  split at h
  · cases h
  · split at h
    · cases h
    · obtain rfl := Except.ok.inj h
      exact ⟨rfl, rfl, rfl⟩

/-- The end of `ListCodes` does not reject. -/
theorem codesReply_not_rejected {batchID : ℤ} {codes : Option (List ListCodesByBatchRow)}
    {total : ℕ} : ¬ Rejected (codesReply T batchID page codes total) := by
  rintro ⟨reply, h, hstatus⟩
  unfold codesReply at h
  split at h
  · obtain rfl := Except.error.inj h
    cases hstatus
  · split at h
    · obtain rfl := Except.error.inj h
      cases hstatus
    · cases h

/-- What `ListCodes` does: it rejects the request, or answers with a part of some rows and their
number. -/
theorem listCodes_cases (hT : T.Integrity) (req : ListCodesRequest) :
    (req.Invalid ∧ Rejected (listCodes T req)) ∨
      ¬ req.Invalid ∧ ∃ (id : ℤ) (rows : List ListCodesByBatchRow), listCodes T req =
        codesReply T id (pageNumber req.page)
          (sqlPage perPage (listOffset (pageNumber req.page)) rows) rows.length := by
  unfold listCodes ListCodesRequest.Invalid
  by_cases hid : (parseInt req.id 64).2 = none
  · simp only [hid, ne_eq, not_true_eq_false, if_false, false_or]
    -- All codes of the batch are listed.
    by_cases hall : req.state = "" ∨ req.state = "all"
    · have hstate : (if req.state = "" then "all" else req.state) = "all" := by
        rcases hall with h | h
        · rw [if_pos h]
        · rw [h]
          rfl
      refine Or.inr ⟨?_, (parseInt req.id 64).1, ?_⟩
      · rcases hall with h | h <;> simp [h]
      · refine ⟨byCodeId ((codesOfBatch T (parseInt req.id 64).1).map codeRow), ?_⟩
        have hlength : (byCodeId ((codesOfBatch T (parseInt req.id 64).1).map codeRow)).length =
            countCodesByBatch T (parseInt req.id 64).1 := by
          unfold byCodeId
          rw [List.length_mergeSort, List.length_map, length_codesOfBatch hT]
        rw [if_pos hstate, hlength]
        rfl
    · rw [not_or] at hall
      rw [if_neg hall.1, if_neg hall.2]
      -- Only those of a state are listed, or the state is none.
      by_cases hstate : req.state ∈ ["active", "partused", "used", "disabled"]
      · rw [if_neg (not_not_intro hstate)]
        refine Or.inr ⟨?_, (parseInt req.id 64).1, ?_⟩
        · simp only [not_not, List.mem_cons]
          simp only [List.mem_cons] at hstate
          exact Or.inr (Or.inr hstate)
        · refine ⟨byCodeId (((codesOfBatch T (parseInt req.id 64).1).filter
            fun row => (codeState row.1 row.2).label = req.state).map codeRow), ?_⟩
          have hlength : (byCodeId (((codesOfBatch T (parseInt req.id 64).1).filter
              fun row => (codeState row.1 row.2).label = req.state).map codeRow)).length =
              countCodesByBatchAndState T (parseInt req.id 64).1 req.state := by
            unfold byCodeId countCodesByBatchAndState
            rw [List.length_mergeSort, List.length_map, List.countP_eq_length_filter]
          rw [hlength]
          rfl
      · rw [if_pos hstate]
        refine Or.inl ⟨?_, _, rfl, rfl⟩
        simp only [List.mem_cons] at hstate ⊢
        tauto
  · refine Or.inl ⟨Or.inl hid, ?_⟩
    rw [if_pos hid]
    exact ⟨_, rfl, rfl⟩

/-- `ListCodes` passes exact offsets for the pages up to 42949673 only. -/
theorem codesPageExact_iff (hT : T.Integrity) (req : ListCodesRequest) :
    CodesPageExact T req ↔ (atoi req.page).1 ≤ 42949673 ∨ req.Invalid := by
  have hbounds := pageNumber_bounds req.page
  have hoffset := exactOffset_iff hbounds.1 hbounds.2
  rw [← pageNumber_le_iff, ← hoffset]
  rcases listCodes_cases hT req with ⟨hinvalid, hrejected⟩ | ⟨hvalid, id, rows, hlist⟩
  · refine ⟨fun _ => Or.inr hinvalid, fun _ => ⟨Or.inl hrejected, fun reply hreply => ?_,
      fun reply hreply => ?_⟩⟩
    all_goals
      obtain ⟨_, herror, -⟩ := hrejected
      rw [herror] at hreply
      cases hreply
  · constructor
    · intro h
      rcases h.offset with hrejected | hexact
      · rw [hlist] at hrejected
        exact absurd hrejected codesReply_not_rejected
      · exact Or.inl hexact
    · intro h
      have hexact := h.resolve_right hvalid
      refine ⟨Or.inr hexact, fun reply hreply => ?_, fun reply hreply hbeyond => ?_⟩
      · rw [hlist] at hreply
        exact (codesReply_ok hreply).2.1
      · rw [hlist] at hreply
        obtain ⟨hcodes, hpage, hpages⟩ := codesReply_ok hreply
        rw [hpage, hpages] at hbeyond
        exact hexact.beyond hcodes hbeyond

/-- What `ListLogs` answers with, if it does. -/
theorem listLogs_ok {order : List ListRedemptionsRow} {req : ListLogsRequest} {reply : LogsReply}
    (h : listLogs ilike T order req = .ok reply) :
    req.filters.storable = true ∧
      sqlPage perPage (listOffset (pageNumber req.page)) order = some reply.logs ∧
      reply.page = pageNumber req.page ∧
      reply.pages = pageCount (matchingLogs ilike T req.filters).length perPage := by
  unfold listLogs listRedemptions countRedemptions at h
  by_cases hstorable : req.filters.storable = true
  · simp only [hstorable, if_true] at h
    split at h
    · cases h
    · rename_i logs hlogs
      obtain rfl := Except.ok.inj h
      refine ⟨hstorable, hlogs, rfl, ?_⟩
      simp only [matchingLogs, List.length_map, Table.count, List.countP_eq_length_filter]
  · simp only [hstorable] at h
    cases h

/-- `ListLogs` never rejects a request: what it cannot answer is an error of the server. -/
theorem listLogs_not_rejected {order : List ListRedemptionsRow} {req : ListLogsRequest} :
    ¬ Rejected (listLogs ilike T order req) := by
  rintro ⟨reply, h, hstatus⟩
  unfold listLogs at h
  simp only at h
  split at h
  · obtain rfl := Except.error.inj h
    cases hstatus
  · split at h
    · obtain rfl := Except.error.inj h
      cases hstatus
    · cases h

/-- `ListLogs` passes exact offsets for the pages up to 42949673 only. -/
theorem logsPageExact_iff {order : List ListRedemptionsRow} {req : ListLogsRequest}
    (horder : LogOrder ilike T req.filters order) :
    LogsPageExact ilike T order req ↔ (atoi req.page).1 ≤ 42949673 := by
  have hbounds := pageNumber_bounds req.page
  rw [← pageNumber_le_iff, ← exactOffset_iff hbounds.1 hbounds.2]
  constructor
  · intro h
    exact h.offset.resolve_left listLogs_not_rejected
  · intro hexact
    refine ⟨Or.inr hexact, fun reply hreply => (listLogs_ok hreply).2.2.1,
      fun reply hreply hbeyond => ?_⟩
    obtain ⟨-, hlogs, hpage, hpages⟩ := listLogs_ok hreply
    rw [hpage, hpages, ← horder.perm.length_eq] at hbeyond
    exact hexact.beyond hlogs hbeyond

/-- The matching redemptions in one of the orders. -/
def sortedLogs (ilike : String → String → Bool) (T : Tables) (f : LogFilters) :
    List ListRedemptionsRow :=
  (matchingLogs ilike T f).mergeSort fun a b => b.createdAt ≤ a.createdAt

/-- It is one that `ORDER BY` allows. -/
theorem logOrder_sortedLogs (ilike : String → String → Bool) (T : Tables) (f : LogFilters) :
    LogOrder ilike T f (sortedLogs ilike T f) :=
  ⟨List.mergeSort_perm _ _, pairwise_mergeSort_desc ListRedemptionsRow.createdAt _⟩

/-- A redemption at time zero, one of several that only differ in their `id`s. -/
def importedRedemption (id : ℕ) : Redemption :=
  { id, codeId := none, batchId := none, codeText := "A", userId := "u", userKey := "u"
    payloadSnapshot := .null, result := .success, message := "", webhookStatus := .none
    webhookResponse := "", webhookAttempt := 0, ip := "0.0.0.0", idempotencyKey := none
    eventId := none, createdAt := 0 }

/-- For every request, `ListCodes` and `ListLogs` pass the exact offset of the page that they
report, or reject the request, and return no rows for a page after the last one, exactly if the page
is at most 42949673 (or, for codes, the batch or the state is invalid). -/
theorem list_offsets_exact_iff (hT : T.Integrity) (codes : ListCodesRequest)
    (logs : ListLogsRequest)
    {order : List ListRedemptionsRow} (horder : LogOrder ilike T logs.filters order) :
    (CodesPageExact T codes ↔ (atoi codes.page).1 ≤ 42949673 ∨ codes.Invalid) ∧
      (LogsPageExact ilike T order logs ↔ (atoi logs.page).1 ≤ 42949673) :=
  ⟨codesPageExact_iff hT codes, logsPageExact_iff horder⟩

/-- Tables with a batch of five codes, and nothing else. -/
def fiveCodes : Tables :=
  { Tables.empty with
    batches := ⟨[twiceBatch], twiceBatch_nodup⟩
    codes := ⟨[⟨1, 1, "A", .unused, 0⟩, ⟨2, 1, "B", .unused, 0⟩, ⟨3, 1, "C", .unused, 0⟩,
      ⟨4, 1, "D", .unused, 0⟩, ⟨5, 1, "E", .unused, 0⟩], by decide⟩ }

/-- The same batch with two redemptions in the log. -/
def fiveRedeemed : Tables :=
  { fiveCodes with redemptions := ⟨[importedRedemption 1, importedRedemption 2], by decide⟩ }

/-- The offsets of the second page of these codes and redemptions are exact, and those of page
85899347 are not. -/
theorem list_offsets_exact_second :
    (CodesPageExact fiveRedeemed ⟨"1", "2", ""⟩ ∧
      ¬ CodesPageExact fiveRedeemed ⟨"1", "85899347", ""⟩) ∧
    LogsPageExact (fun _ _ => true) fiveRedeemed
        (sortedLogs (fun _ _ => true) fiveRedeemed ⟨0, "", "", ""⟩) ⟨"", "", "", "", "2"⟩ ∧
      ¬ LogsPageExact (fun _ _ => true) fiveRedeemed
        (sortedLogs (fun _ _ => true) fiveRedeemed ⟨0, "", "", ""⟩)
        ⟨"", "", "", "", "85899347"⟩ := by
  have hT : fiveRedeemed.Integrity := Tables.integrity_of_check (by decide +kernel)
  have hvalid : ¬ (⟨"1", "85899347", ""⟩ : ListCodesRequest).Invalid := by
    rintro (hid | hstate)
    · exact hid (by decide)
    · exact hstate (by decide)
  have hfar : ¬ (atoi "85899347").1 ≤ 42949673 := by decide
  have horder := logOrder_sortedLogs (fun _ _ => true) fiveRedeemed ⟨0, "", "", ""⟩
  obtain ⟨hcodes, hlogs⟩ :=
    list_offsets_exact_iff hT ⟨"1", "2", ""⟩ ⟨"", "", "", "", "2"⟩ horder
  obtain ⟨hcodes', hlogs'⟩ :=
    list_offsets_exact_iff hT ⟨"1", "85899347", ""⟩ ⟨"", "", "", "", "85899347"⟩ horder
  exact ⟨⟨hcodes.mpr (Or.inl (by decide)), fun h => (hcodes'.mp h).elim hfar hvalid⟩,
    hlogs.mpr (by decide), fun h => hfar (hlogs'.mp h)⟩

/-- Of five codes on one page, page 85899347 shows the last one again: its offset is 4. -/
theorem list_offset_wraps : ¬ CodesPageExact fiveCodes ⟨"1", "85899347", ""⟩ ∧
    ∃ reply, listCodes fiveCodes ⟨"1", "85899347", ""⟩ = .ok reply ∧ reply.pages = 1 ∧
      reply.page = 85899347 ∧ reply.codes ≠ [] := by
  have hlist : listCodes fiveCodes ⟨"1", "85899347", ""⟩ = .ok
      { codes := slice 50 4 (byCodeId ((codesOfBatch fiveCodes 1).map codeRow))
        maxUses := 2, total := 5, page := 85899347, pages := 1 } := by
    have hid : parseInt "1" 64 = (1, none) := by decide
    have hpage : pageNumber "85899347" = 85899347 := by decide
    have hoffset : listOffset 85899347 = 4 := by decide
    unfold listCodes
    simp only [hid, hpage, hoffset]
    rfl
  have hrows : slice 50 4 (byCodeId ((codesOfBatch fiveCodes 1).map codeRow)) ≠ [] := by
    have hlength : (byCodeId ((codesOfBatch fiveCodes 1).map codeRow)).length = 5 := by
      unfold byCodeId
      rw [List.length_mergeSort]
      decide
    intro hnil
    have hzero := congrArg List.length hnil
    simp [slice, hlength] at hzero
  refine ⟨fun h => ?_, _, hlist, rfl, rfl, hrows⟩
  have hnil := h.beyond _ hlist (by decide)
  exact hrows hnil

/-! ## Redemptions of one time -/

/-- The same request for another page, with its filters as they are. -/
def ListLogsRequest.onPage (req : ListLogsRequest) (page : ℕ) : ListLogsRequest :=
  { req with page := toString page }

/-- The rows that an answer shows, and none where the request was refused. -/
def shownLogs : Except Reply LogsReply → List ListRedemptionsRow
  | .ok reply => reply.logs
  | .error _ => []

/-- The pages from the first to the last one that is reported show each matching redemption once,
whatever orders PostgreSQL chooses for their queries. -/
def LogsShownOnce (ilike : String → String → Bool) (T : Tables) (req : ListLogsRequest) : Prop :=
  ∀ orders : ℕ → List ListRedemptionsRow, (∀ k, LogOrder ilike T req.filters (orders k)) →
    ∀ first, listLogs ilike T (orders 0) (req.onPage 1) = .ok first →
      ((List.range first.pages).flatMap fun k =>
        shownLogs (listLogs ilike T (orders k) (req.onPage (k + 1)))).Perm
        (matchingLogs ilike T req.filters)

/-- The redemptions that match are different rows, so none is shown twice. -/
theorem nodup_matchingLogs (ilike : String → String → Bool) (T : Tables) (f : LogFilters) :
    (matchingLogs ilike T f).Nodup := by
  have hids : (matchingLogs ilike T f).map ListRedemptionsRow.id =
      (T.redemptions.rows.filter fun r => f.matches ilike r).map key := by
    unfold matchingLogs
    rw [List.map_map]
    rfl
  refine List.Nodup.of_map ListRedemptionsRow.id ?_
  rw [hids]
  exact T.redemptions.nodup.sublist (List.filter_sublist.map key)

variable {req : ListLogsRequest} {order : List ListRedemptionsRow}

/-- The page that is shown when the filters are texts that PostgreSQL accepts. -/
theorem shownLogs_eq (h : req.filters.storable = true) (page : ℕ) :
    shownLogs (listLogs ilike T order (req.onPage page)) =
      (sqlPage perPage (listOffset (pageNumber (toString page))) order).getD [] := by
  have hfilters : (req.onPage page).filters = req.filters := rfl
  have hpage : (req.onPage page).page = toString page := rfl
  unfold listLogs listRedemptions countRedemptions
  simp only [hfilters, hpage, h, if_true]
  cases sqlPage perPage (listOffset (pageNumber (toString page))) order <;> rfl

/-- On the first pages, it is the part of the order that the page stands for. -/
theorem shownLogs_slice (h : req.filters.storable = true) {k : ℕ} (hk : k < 42949673) :
    shownLogs (listLogs ilike T order (req.onPage (k + 1))) =
      slice perPage (k * perPage) order := by
  have hexact : ExactOffset ((k : ℤ) + 1) := (exactOffset_iff (by omega) (by omega)).mpr (by omega)
  rw [shownLogs_eq h, pageNumber_toString (by omega), hexact.sqlPage_eq, Option.getD_some]
  congr 2
  omega

/-- After them, offsets are negative, and nothing is shown. -/
theorem shownLogs_negative (h : req.filters.storable = true) {k : ℕ} (hk : 42949673 ≤ k)
    (hk' : k < 85899346) : shownLogs (listLogs ilike T order (req.onPage (k + 1))) = [] := by
  have hneg : listOffset ((k : ℤ) + 1) < 0 := by
    have hwide : toInt64 (toInt64 ((k : ℤ) + 1 - 1) * (50 : ℕ)) = k * 50 := by
      rw [toInt64_eq (x := (k : ℤ) + 1 - 1) (by omega) (by omega), toInt64_eq (by omega) (by omega)]
      omega
    have hmod : (k : ℤ) * 50 % 4294967296 = k * 50 := Int.emod_eq_of_lt (by omega) (by omega)
    unfold listOffset perPage toInt32
    rw [hwide, Int.bmod_def]
    norm_num
    rw [hmod, if_neg (by omega)]
    omega
  rw [shownLogs_eq h, pageNumber_toString (by omega)]
  unfold sqlPage
  rw [if_pos (Or.inr hneg)]
  rfl

/-- The pages that are reported, when the filters are texts that PostgreSQL accepts. -/
theorem listLogs_first (ilike : String → String → Bool) (T : Tables)
    (order : List ListRedemptionsRow) (h : req.filters.storable = true) :
    ∃ first, listLogs ilike T order (req.onPage 1) = .ok first ∧
      first.pages = pageCount (matchingLogs ilike T req.filters).length perPage := by
  have hfilters : (req.onPage 1).filters = req.filters := rfl
  have hexact : ExactOffset (pageNumber (toString 1)) := by
    have hone : pageNumber (toString 1) = 1 := by decide
    rw [hone]
    exact (exactOffset_iff (by omega) (by omega)).mpr (by omega)
  cases hlist : listLogs ilike T order (req.onPage 1) with
  | ok first => exact ⟨first, rfl, hfilters ▸ (listLogs_ok hlist).2.2.2⟩
  | error reply =>
    unfold listLogs listRedemptions countRedemptions at hlist
    simp only [hfilters, h, if_true] at hlist
    have hpage : (req.onPage 1).page = toString 1 := rfl
    rw [hpage, hexact.sqlPage_eq] at hlist
    cases hlist

/-- If all redemptions are shown once, there are at most as many as exact offsets reach: the pages
after those show nothing, or the first redemptions once more. -/
theorem LogsShownOnce.length_le (h : LogsShownOnce ilike T req)
    (hstorable : req.filters.storable = true) :
    (matchingLogs ilike T req.filters).length ≤ 2147483650 := by
  by_contra hlt
  rw [not_le] at hlt
  have horder := logOrder_sortedLogs ilike T req.filters
  generalize sortedLogs ilike T req.filters = order at horder
  obtain ⟨first, hfirst, hpages⟩ := listLogs_first ilike T order hstorable
  have hperm := h (fun _ => order) (fun _ => horder) first hfirst
  rw [hpages] at hperm
  -- There are too many redemptions, so some page has an offset that wraps around.
  have hlength := horder.perm.length_eq
  rcases Nat.lt_or_ge 85899346 (pageCount (matchingLogs ilike T req.filters).length perPage)
    with hmany | hfew
  · -- The fifth redemption is on the first page and on page 85899347.
    have hdistinct := hperm.nodup_iff.mpr (nodup_matchingLogs ilike T req.filters)
    rw [List.nodup_flatMap] at hdistinct
    have hdisjoint := List.pairwise_iff_getElem.mp hdistinct.2 0 85899346
      (by rw [List.length_range]; omega) (by rw [List.length_range]; omega) (by omega)
    simp only [List.getElem_range, Function.onFun] at hdisjoint
    have hoffset : listOffset (pageNumber (toString (85899346 + 1))) = 4 := by decide
    have hagain : shownLogs (listLogs ilike T order (req.onPage (85899346 + 1))) =
        slice perPage 4 order := by
      rw [shownLogs_eq hstorable, hoffset]
      rfl
    have hfifth : ∀ offset ≤ 4, order[4] ∈ slice perPage offset order := by
      intro offset hle
      refine List.mem_of_getElem? (i := 4 - offset) ?_
      have hidx : offset + (4 - offset) = 4 := by omega
      have hper : 4 - offset < perPage := by
        unfold perPage
        omega
      simp [slice, List.getElem?_drop, hidx, hper]
    rw [shownLogs_slice hstorable (by omega), hagain] at hdisjoint
    exact hdisjoint (hfifth _ (by omega)) (hfifth 4 (le_refl 4))
  · -- The pages after the exact ones show nothing, so rows are missing.
    have hpagesLe : 42949673 ≤ pageCount (matchingLogs ilike T req.filters).length perPage := by
      by_contra hlt'
      have hper : 0 < perPage := by decide
      have hroom := (pageCount_le_iff (k := 42949673) hper).mp (le_of_lt (not_le.mp hlt'))
      unfold perPage at hroom
      omega
    obtain ⟨rest, hrest⟩ := Nat.exists_eq_add_of_le hpagesLe
    rw [hrest, List.range_add, List.flatMap_append] at hperm
    have hnone : ((List.range rest).map (42949673 + ·)).flatMap (fun k =>
        shownLogs (listLogs ilike T order (req.onPage (k + 1)))) = [] := by
      rw [List.flatMap_eq_nil_iff]
      intro k hk
      obtain ⟨j, hj, rfl⟩ := List.mem_map.mp hk
      have hj' := List.mem_range.mp hj
      exact shownLogs_negative hstorable (by omega) (by omega)
    rw [hnone, List.append_nil] at hperm
    have hle := length_flatMap_le (l := List.range 42949673) (n := perPage)
      (g := fun k => shownLogs (listLogs ilike T order (req.onPage (k + 1)))) fun k hk => by
        rw [shownLogs_slice hstorable (List.mem_range.mp hk)]
        exact List.length_take_le _ _
    rw [hperm.length_eq, List.length_range] at hle
    unfold perPage at hle
    omega

/-- The pages together are cut from the orders, if exact offsets reach all of them. -/
theorem shown_eq_slices (hstorable : req.filters.storable = true)
    (hle : (matchingLogs ilike T req.filters).length ≤ 2147483650)
    (orders : ℕ → List ListRedemptionsRow) :
    ((List.range (pageCount (matchingLogs ilike T req.filters).length perPage)).flatMap fun k =>
      shownLogs (listLogs ilike T (orders k) (req.onPage (k + 1)))) =
    (List.range (pageCount (matchingLogs ilike T req.filters).length perPage)).flatMap fun k =>
      slice perPage (k * perPage) (orders k) := by
  have hpages : pageCount (matchingLogs ilike T req.filters).length perPage ≤ 42949673 :=
    (pageCount_le_iff (by decide)).mpr hle
  refine List.flatMap_congr fun k hk => ?_
  have hk' := List.mem_range.mp hk
  exact shownLogs_slice hstorable (by omega)

/-- If all redemptions are shown once, no page boundary is between two of one time. -/
theorem LogsShownOnce.breaks (h : LogsShownOnce ilike T req)
    (hstorable : req.filters.storable = true) (k : ℕ) :
    Breaks ListRedemptionsRow.createdAt (sortedLogs ilike T req.filters) (k * perPage) := by
  have hle := h.length_le hstorable
  refine SortedBy.breaks (by decide) (nodup_matchingLogs ilike T req.filters)
    (logOrder_sortedLogs ilike T req.filters) (fun orders horders => ?_) k
  obtain ⟨first, hfirst, hpages⟩ :=
    listLogs_first ilike T (orders 0) hstorable
  have hperm := h orders horders first hfirst
  rwa [hpages, shown_eq_slices hstorable hle] at hperm

/-- For every request, and whatever orders PostgreSQL chooses for the pages: together they show each
matching redemption once exactly if a filter is no text of PostgreSQL (then no page is shown), or
exact offsets reach all rows and no page boundary is between two redemptions of one time. -/
theorem logs_shown_once_iff (ilike : String → String → Bool) (T : Tables) (req : ListLogsRequest) :
    LogsShownOnce ilike T req ↔ req.filters.storable = false ∨
      (matchingLogs ilike T req.filters).length ≤ 2147483650 ∧
        ∀ k, Breaks ListRedemptionsRow.createdAt (sortedLogs ilike T req.filters)
        (k * perPage) := by
  constructor
  · intro h
    by_cases hstorable : req.filters.storable = true
    · exact Or.inr ⟨h.length_le hstorable, h.breaks hstorable⟩
    · exact Or.inl (by simpa using hstorable)
  · rintro (hstorable | ⟨hle, hbreaks⟩) orders horders first hfirst
    · have htrue := (listLogs_ok hfirst).1
      have hfilters : (req.onPage 1).filters = req.filters := rfl
      rw [hfilters, hstorable] at htrue
      cases htrue
    · obtain ⟨hstorable, -, -, hpages⟩ := listLogs_ok hfirst
      have hfilters : (req.onPage 1).filters = req.filters := rfl
      rw [hfilters] at hstorable hpages
      rw [hpages, shown_eq_slices hstorable hle]
      exact (pages_perm_iff (by decide) (nodup_matchingLogs ilike T req.filters)
        (logOrder_sortedLogs ilike T req.filters)).mpr hbreaks orders horders

/-- Fifty-one redemptions that were imported with one time. -/
def importedLogs : Tables :=
  { Tables.empty with
    redemptions := ⟨(List.range 51).map importedRedemption, by decide⟩ }

/-- Of fifty-one redemptions of one time, the one on the second page can be on the first page, too.
-/
theorem logs_shown_twice : ¬ LogsShownOnce (fun _ _ => true) importedLogs ⟨"", "", "", "", ""⟩ := by
  intro h
  have hbreaks := h.breaks (by decide) 1
  have horder := logOrder_sortedLogs (fun _ _ => true) importedLogs
    (⟨"", "", "", "", ""⟩ : ListLogsRequest).filters
  generalize sortedLogs (fun _ _ => true) importedLogs
    (⟨"", "", "", "", ""⟩ : ListLogsRequest).filters = order at hbreaks horder
  have hlength : order.length = 51 := by
    rw [horder.perm.length_eq]
    decide
  have hzero : ∀ row ∈ order, row.createdAt = 0 := by
    intro row hrow
    have hmem := horder.perm.mem_iff.mp hrow
    obtain ⟨r, hr, rfl⟩ := List.mem_map.mp hmem
    obtain ⟨id, -, rfl⟩ := List.mem_map.mp (List.mem_of_mem_filter hr)
    rfl
  have hlt : 1 * perPage < order.length := by
    rw [hlength]
    decide
  refine hbreaks hlt (by decide) ?_
  rw [hzero _ (List.get_mem _ _), hzero _ (List.get_mem _ _)]

end CdkSystem
