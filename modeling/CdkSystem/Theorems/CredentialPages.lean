import CdkSystem.Inventory
import CdkSystem.Theorems.ListPages

/-!
# The pages of credentials

`parseCredentialPagination` compares the page with a quotient before it multiplies, so the offset is
exact on every page that it accepts, and it rejects no page that has an offset of 32 bits
(`PaginationExact`). Credentials are sorted by `id`, so the pages divide the list
(`credential_pages_partition`).

The page is beyond the quotient exactly when its offset is beyond the largest one of 32 bits
(`guard_iff`), so the multiplication, which is made in Go's `int`, and the conversion after it are
exact. Since an `id` is unique, the sorted list does not depend on how the database happens to store
its rows, and every page is a slice of the same list (`shownCredentials_page`).
-/

namespace CdkSystem

open Relational Paging

variable {T : Tables} {state pageRaw sizeRaw : String} {size : ℤ}

/-! ## The pagination -/

/-- The size that is read is allowed, and its conversion to `int32` changes nothing. -/
theorem credentialPageSize_ok (h : credentialPageSize sizeRaw = .ok size) :
    size ∈ allowedCredentialPageSizes := by
  unfold credentialPageSize at h
  split_ifs at h with hempty herror hallowed
  · obtain rfl := Except.ok.inj h
    decide
  · obtain rfl := Except.ok.inj h
    exact hallowed

/-- An allowed size is positive and at most 500. -/
theorem allowed_bounds (h : size ∈ allowedCredentialPageSizes) : 0 < size ∧ size ≤ 500 := by
  unfold allowedCredentialPageSizes at h
  simp only [List.mem_cons, List.not_mem_nil, or_false] at h
  omega

/-- The page that is read is at least one, and an `int64`. -/
theorem credentialPage_bounds (pageRaw : String) :
    1 ≤ credentialPage pageRaw ∧ credentialPage pageRaw < 2 ^ 63 := by
  have hbounds : -(2 : ℤ) ^ 63 ≤ (parseInt pageRaw 64).1 ∧ (parseInt pageRaw 64).1 < 2 ^ 63 :=
    parseInt_bounds pageRaw
  unfold credentialPage
  split_ifs with hpos
  · constructor
    · omega
    · norm_num
      omega
  · norm_num

/-- The page of a positive number is the number. -/
theorem credentialPage_toString {k : ℕ} (h : k + 1 < 2 ^ 63) :
    credentialPage (toString (k + 1)) = k + 1 := by
  have hread : parseInt (toString (k + 1)) 64 = (((k + 1 : ℕ) : ℤ), none) := atoi_toString h
  have hne : toString (k + 1) ≠ "" := by
    intro hempty
    rw [hempty] at hread
    have hnone := congrArg Prod.snd hread
    have herror : (parseInt "" 64).2 = some .errSyntax := by decide
    rw [herror] at hnone
    cases hnone
  unfold credentialPage
  rw [hread]
  push_cast
  rw [if_pos ⟨hne, rfl, by omega⟩]

/-- The guard compares the offset of the page with the largest offset. -/
theorem guard_iff {page : ℤ} (hsize : 0 < size) (h : 1 ≤ page) (h' : page < 2 ^ 63) :
    maxOffset.tdiv size < toInt64 (page - 1) ↔ maxOffset < (page - 1) * size := by
  rw [toInt64_eq (by omega) (by omega), Int.tdiv_eq_ediv_of_nonneg (by decide)]
  exact Int.ediv_lt_iff_lt_mul hsize

/-- The offset is computed exactly if it is at most the largest one. -/
theorem offset_eq {page : ℤ} (hsize : size ∈ allowedCredentialPageSizes) (h : 1 ≤ page)
    (h' : page < 2 ^ 63) (hle : (page - 1) * size ≤ maxOffset) :
    toInt64 (page - 1) = page - 1 ∧ toInt64 ((page - 1) * size) = (page - 1) * size ∧
      toInt32 ((page - 1) * size) = (page - 1) * size ∧ 0 ≤ (page - 1) * size := by
  have hbounds := allowed_bounds hsize
  have hnonneg : 0 ≤ (page - 1) * size := Int.mul_nonneg (by omega) (by omega)
  unfold maxOffset at hle
  refine ⟨toInt64_eq (by omega) (by omega), ?_, ?_, hnonneg⟩
  · exact toInt64_eq (by omega) (by omega)
  · exact toInt32_eq (by omega) (by omega)

/-- What `parseCredentialPagination` returns for a size that is allowed: an error exactly if the
offset exceeds the largest one, and the exact offset otherwise. -/
theorem parseCredentialPagination_eq (hsize : credentialPageSize sizeRaw = .ok size)
    (pageRaw : String) :
    parseCredentialPagination pageRaw sizeRaw =
      if maxOffset < (credentialPage pageRaw - 1) * size then .error "页码超出范围"
      else .ok ⟨credentialPage pageRaw, size, (credentialPage pageRaw - 1) * size⟩ := by
  have hallowed := credentialPageSize_ok hsize
  obtain ⟨hpos, -⟩ := allowed_bounds hallowed
  obtain ⟨hpage, hpage'⟩ := credentialPage_bounds pageRaw
  unfold parseCredentialPagination
  rw [hsize]
  simp only [guard_iff hpos hpage hpage']
  split_ifs with hlt
  · rfl
  · obtain ⟨h1, h2, h3, -⟩ := offset_eq hallowed hpage hpage' (not_lt.mp hlt)
    rw [h1, h2, h3]

/-- What `parseCredentialPagination` does with the texts of a page and a size. -/
structure PaginationExact (pageRaw sizeRaw : String) : Prop where
  /-- What is returned is the page that was read, an allowed size and the exact offset. -/
  exact : ∀ p, parseCredentialPagination pageRaw sizeRaw = .ok p →
    p.page = credentialPage pageRaw ∧ credentialPageSize sizeRaw = .ok p.pageSize ∧
      p.pageSize ∈ allowedCredentialPageSizes ∧ p.offset = (p.page - 1) * p.pageSize ∧
      0 ≤ p.offset ∧ p.offset ≤ 2 ^ 31 - 1
  /-- With a valid size, a page is rejected only if its offset is too large. -/
  rejects : ∀ size message, credentialPageSize sizeRaw = .ok size →
    parseCredentialPagination pageRaw sizeRaw = .error message →
    2 ^ 31 - 1 < (credentialPage pageRaw - 1) * size
  /-- No operation on the way overflows. -/
  fits : ∀ size, credentialPageSize sizeRaw = .ok size →
    toInt64 (credentialPage pageRaw - 1) = credentialPage pageRaw - 1 ∧
      ∀ p, parseCredentialPagination pageRaw sizeRaw = .ok p →
        toInt64 ((credentialPage pageRaw - 1) * size) = (credentialPage pageRaw - 1) * size ∧
          toInt32 ((credentialPage pageRaw - 1) * size) = (credentialPage pageRaw - 1) * size

/-- The size is read before the page. -/
theorem parseCredentialPagination_size {p : CredentialPagination}
    (h : parseCredentialPagination pageRaw sizeRaw = .ok p) :
    ∃ size, credentialPageSize sizeRaw = .ok size := by
  cases hsize : credentialPageSize sizeRaw with
  | ok size => exact ⟨size, rfl⟩
  | error message =>
    unfold parseCredentialPagination at h
    rw [hsize] at h
    cases h

/-- The pagination is exact for all texts. -/
theorem paginationExact (pageRaw sizeRaw : String) : PaginationExact pageRaw sizeRaw := by
  obtain ⟨hpage, hpage'⟩ := credentialPage_bounds pageRaw
  refine ⟨fun p hp => ?_, fun size message hsize herror => ?_,
    fun size hsize => ⟨?_, fun p hp => ?_⟩⟩
  · obtain ⟨size, hsize⟩ := parseCredentialPagination_size hp
    have hallowed := credentialPageSize_ok hsize
    rw [parseCredentialPagination_eq hsize] at hp
    split_ifs at hp with hlt
    obtain rfl := Except.ok.inj hp
    have hnonneg := (offset_eq hallowed hpage hpage' (not_lt.mp hlt)).2.2.2
    exact ⟨rfl, hsize, hallowed, rfl, hnonneg, not_lt.mp hlt⟩
  · rw [parseCredentialPagination_eq hsize] at herror
    split_ifs at herror with hlt
    exact hlt
  · exact toInt64_eq (by omega) (by omega)
  · rw [parseCredentialPagination_eq hsize] at hp
    split_ifs at hp with hlt
    obtain ⟨-, h2, h3, -⟩ := offset_eq (credentialPageSize_ok hsize) hpage hpage' (not_lt.mp hlt)
    exact ⟨h2, h3⟩

/-! ## The pages -/

/-- The credentials in a state, in descending order of `id`. -/
def credentialsInState (T : Tables) (state : String) : List ListCredentialsRow :=
  ((T.credentials.rows.filter (Credential.inState state)).map Credential.row).mergeSort
    fun a b => b.id ≤ a.id

/-- They are the credentials in the state. -/
theorem credentialsInState_perm (T : Tables) (state : String) :
    (credentialsInState T state).Perm
      ((T.credentials.rows.filter (Credential.inState state)).map Credential.row) :=
  List.mergeSort_perm _ _

/-- The credentials of a state are listed with descending `id`s. -/
theorem credentialsInState_sorted (T : Tables) (state : String) :
    (credentialsInState T state).Pairwise fun a b => b.id < a.id := by
  have hsorted := pairwise_mergeSort_desc ListCredentialsRow.id
    ((T.credentials.rows.filter (Credential.inState state)).map Credential.row)
  have hids : ((T.credentials.rows.filter (Credential.inState state)).map Credential.row).map
      ListCredentialsRow.id = (T.credentials.rows.filter (Credential.inState state)).map key := by
    rw [List.map_map]
    rfl
  have hnodup : ((credentialsInState T state).map ListCredentialsRow.id).Nodup := by
    rw [((credentialsInState_perm T state).map _).nodup_iff, hids]
    exact T.credentials.nodup.sublist (List.filter_sublist.map key)
  have hne : (credentialsInState T state).Pairwise fun a b => a.id ≠ b.id :=
    List.pairwise_map.mp hnodup
  exact (hsorted.and hne).imp fun {a b} h => lt_of_le_of_ne h.1 (Ne.symm h.2)

/-- There are as many as `CountCredentials` counts. -/
theorem length_credentialsInState (T : Tables) (state : String) :
    (credentialsInState T state).length = countCredentials T state := by
  rw [(credentialsInState_perm T state).length_eq, List.length_map, countCredentials, Table.count,
    List.countP_eq_length_filter]

/-- What `ListCredentials` answers for a page with a valid size. -/
theorem listCredentialsHandler_eq (hstate : state ∈ ["all", "used", "unused"])
    (hsize : credentialPageSize sizeRaw = .ok size) (pageRaw : String) :
    listCredentialsHandler T ⟨state, pageRaw, sizeRaw⟩ =
      if maxOffset < (credentialPage pageRaw - 1) * size then
        .error (respondError 400 "页码超出范围" [])
      else .ok
        { items := slice size.toNat ((credentialPage pageRaw - 1).toNat * size.toNat)
            (credentialsInState T state)
          total := (credentialsInState T state).length
          page := credentialPage pageRaw
          pages := pageCount (credentialsInState T state).length size.toNat
          pageSize := size } := by
  have hallowed := credentialPageSize_ok hsize
  obtain ⟨hpos, -⟩ := allowed_bounds hallowed
  obtain ⟨hpage, hpage'⟩ := credentialPage_bounds pageRaw
  have hempty : state ≠ "" := by
    rintro rfl
    exact absurd hstate (by decide)
  have hvalid : ¬ (state ≠ "all" ∧ state ≠ "used" ∧ state ≠ "unused") := by
    simp only [List.mem_cons, List.not_mem_nil, or_false] at hstate
    tauto
  unfold listCredentialsHandler
  simp only [hempty, if_false, hvalid, parseCredentialPagination_eq hsize]
  split_ifs with hlt
  · rfl
  · -- The page is not beyond the bound, so its offset is the product, of 32 bits and not
    -- negative.
    have hnonneg := (offset_eq hallowed hpage hpage' (not_lt.mp hlt)).2.2.2
    have hoffset : ((credentialPage pageRaw - 1) * size).toNat =
        (credentialPage pageRaw - 1).toNat * size.toNat := by
      rw [Int.toNat_mul (by omega) (by omega)]
    have hquery : listCredentials T state size ((credentialPage pageRaw - 1) * size) =
        some (slice size.toNat ((credentialPage pageRaw - 1).toNat * size.toNat)
          (credentialsInState T state)) := by
      unfold listCredentials sqlPage
      rw [if_neg (by omega), hoffset]
      rfl
    simp only [hquery, length_credentialsInState]

/-- The credentials that an answer shows, and none where the request was refused. -/
def shownCredentials : Except Reply CredentialsReply → List ListCredentialsRow
  | .ok reply => reply.items
  | .error _ => []

/-- How `ListCredentials` divides the credentials in a state into pages. -/
structure CredentialPages (T : Tables) (state sizeRaw : String) (first : CredentialsReply) :
    Prop where
  /-- The number that is reported is that of the credentials in the state. -/
  total : first.total = (T.credentials.rows.filter (Credential.inState state)).length
  /-- The pages together are these credentials, each once and in descending order. -/
  all : ((List.range first.pages).flatMap fun k =>
    shownCredentials (listCredentialsHandler T ⟨state, toString (k + 1), sizeRaw⟩)).Perm
      ((T.credentials.rows.filter (Credential.inState state)).map Credential.row)
  sorted : ((List.range first.pages).flatMap fun k =>
    shownCredentials (listCredentialsHandler T ⟨state, toString (k + 1), sizeRaw⟩)).Pairwise
      fun a b => b.id < a.id
  /-- A later page is empty or rejected. -/
  beyond : ∀ page : ℕ, first.pages < page → page < 2 ^ 63 →
    Rejected (listCredentialsHandler T ⟨state, toString page, sizeRaw⟩) ∨
      ∃ reply, listCredentialsHandler T ⟨state, toString page, sizeRaw⟩ = .ok reply ∧
        reply.items = []

/-- A page among the reported ones shows its part of the sorted credentials. -/
theorem shownCredentials_page (hstate : state ∈ ["all", "used", "unused"])
    (hsize : credentialPageSize sizeRaw = .ok size)
    (hlength : (credentialsInState T state).length < 2 ^ 31) {k : ℕ}
    (hk : k < pageCount (credentialsInState T state).length size.toNat) :
    shownCredentials (listCredentialsHandler T ⟨state, toString (k + 1), sizeRaw⟩) =
      slice size.toNat (k * size.toNat) (credentialsInState T state) := by
  obtain ⟨hpos, -⟩ := allowed_bounds (credentialPageSize_ok hsize)
  have hpos' : 0 < size.toNat := by omega
  -- The page begins within the list, so its offset has 32 bits.
  have hbegin : k * size.toNat < (credentialsInState T state).length := by
    by_contra hge
    have hle := (pageCount_le_iff hpos').mpr (not_lt.mp hge)
    omega
  have hsmall : k ≤ k * size.toNat := Nat.le_mul_of_pos_right k hpos'
  have hpage : credentialPage (toString (k + 1)) = k + 1 := credentialPage_toString (by omega)
  have hcast : ((k : ℤ) + 1 - 1) * size = ((k * size.toNat : ℕ) : ℤ) := by
    push_cast
    rw [Int.toNat_of_nonneg (by omega)]
    ring
  have hguard : ¬ maxOffset < ((k : ℤ) + 1 - 1) * size := by
    rw [hcast]
    unfold maxOffset
    omega
  have hindex : ((k : ℤ) + 1 - 1).toNat = k := by omega
  rw [listCredentialsHandler_eq hstate hsize, hpage, if_neg hguard, hindex]
  rfl

/-- `ListCredentials` divides the credentials in a state into pages. -/
theorem credentialPages (hrows : T.credentials.rows.length < 2 ^ 31)
    (hstate : state ∈ ["all", "used", "unused"]) (hsize : credentialPageSize sizeRaw = .ok size) :
    ∃ first, listCredentialsHandler T ⟨state, "1", sizeRaw⟩ = .ok first ∧
      CredentialPages T state sizeRaw first := by
  obtain ⟨hpos, -⟩ := allowed_bounds (credentialPageSize_ok hsize)
  have hpos' : 0 < size.toNat := by omega
  have hlength : (credentialsInState T state).length < 2 ^ 31 := by
    rw [length_credentialsInState]
    exact lt_of_le_of_lt List.countP_le_length hrows
  have hone : credentialPage "1" = 1 := by decide
  have hguard : ¬ maxOffset < (credentialPage "1" - 1) * size := by
    rw [hone]
    unfold maxOffset
    omega
  -- The pages put together are the slices of one sorted list.
  have hall : ((List.range (pageCount (credentialsInState T state).length size.toNat)).flatMap
      fun k => shownCredentials (listCredentialsHandler T ⟨state, toString (k + 1), sizeRaw⟩)) =
      credentialsInState T state := by
    conv_rhs => rw [← flatMap_slice hpos' (credentialsInState T state)]
    refine List.flatMap_congr fun k hk => ?_
    exact shownCredentials_page hstate hsize hlength (List.mem_range.mp hk)
  refine ⟨_, (listCredentialsHandler_eq hstate hsize "1").trans (if_neg hguard), ?_, ?_, ?_, ?_⟩
  · simp only [(credentialsInState_perm T state).length_eq, List.length_map]
  · rw [hall]
    exact credentialsInState_perm T state
  · rw [hall]
    exact credentialsInState_sorted T state
  · -- A page behind the last one is rejected or empty.
    intro page hbeyond hpage
    obtain ⟨k, rfl⟩ : ∃ k, page = k + 1 := ⟨page - 1, by omega⟩
    rw [listCredentialsHandler_eq hstate hsize, credentialPage_toString hpage]
    split_ifs with hlt
    · exact Or.inl ⟨_, rfl, rfl⟩
    · refine Or.inr ⟨_, rfl, ?_⟩
      have hindex : ((k : ℤ) + 1 - 1).toNat = k := by omega
      simp only [hindex]
      exact slice_eq_nil hpos' (Nat.le_of_lt_succ hbeyond)

/-- For all tables with fewer than 2^31 credentials, every state and every page size, the pages
divide the credentials in the state; and for all texts of a page and a size, the pagination is
exact. -/
theorem credential_pages_partition (hrows : T.credentials.rows.length < 2 ^ 31)
    (hstate : state ∈ ["all", "used", "unused"]) (hsize : credentialPageSize sizeRaw = .ok size) :
    (∃ first, listCredentialsHandler T ⟨state, "1", sizeRaw⟩ = .ok first ∧
      CredentialPages T state sizeRaw first) ∧
      (∀ n ∈ allowedCredentialPageSizes, credentialPageSize (toString n) = .ok n) ∧
      ∀ pageRaw sizeRaw, PaginationExact pageRaw sizeRaw :=
  ⟨credentialPages hrows hstate hsize, by decide, paginationExact⟩

/-- Tables with a used and an unused credential, and nothing else. -/
def twoCredentials : Tables :=
  { Tables.empty with
    credentials :=
      ⟨[⟨1, "a", "p", none, .null, false, none⟩, ⟨2, "b", "p", none, .null, true, none⟩],
        by decide⟩ }

/-- The unused one of two credentials, on pages of twenty. -/
theorem credential_pages_partition_two : ∃ first,
    listCredentialsHandler twoCredentials ⟨"unused", "1", "20"⟩ = .ok first ∧ first.total = 1 := by
  have hsize : credentialPageSize "20" = .ok 20 := by decide
  have hstate : "unused" ∈ ["all", "used", "unused"] := by decide
  obtain ⟨first, hfirst, hpages⟩ :=
    (credential_pages_partition (T := twoCredentials) (by decide) hstate hsize).1
  exact ⟨first, hfirst, hpages.total⟩

end CdkSystem
