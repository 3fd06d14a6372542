import CdkSystem.Inventory

/-!
# The inventory and the allocation agree

The availability of a credential is written out in `ListCredentialPlans`, in
`CountAvailableCredentialsByPlan` and in `GetUnusedCredential`. For all tables and at every instant
the three agree, and the classes of `ListCredentialPlans` divide the credentials of a plan
(`inventory_agrees`).

A credential is available if it is unused and has not expired at the instant of the query. Each
query writes this down in its own way, and so the comparison is made once for a row
(`available_iff`) and then counted. Handing a credential out moves it from one class of its plan to
another and leaves the other plans alone (`listCredentialPlans_markUsed`). The check of the
inventory when a batch is created reads the same number as the list of the plans.
-/

namespace CdkSystem

open RowLock Relational

variable {T : Tables} {now : Time} {plan : String} {c : Credential}

/-- No credential is locked by another transaction. -/
def unlocked : ℕ → Bool := fun _ => false

/-- A credential is available, used or expired. -/
theorem class_cases (c : Credential) (now : Time) :
    (if c.isAvailable now = true then 1 else 0) + (if c.used = true then 1 else 0) +
      (if c.isExpired now = true then 1 else 0) = 1 := by
  unfold Credential.isAvailable Credential.isExpired
  cases hused : c.used with
  | true => simp
  | false =>
    cases hexpired : c.expired with
    | none => simp
    | some t =>
      rcases lt_or_ge now t with hlt | hge
      · simp [hlt]
      · simp [hge]

/-- The classes of a plan divide its credentials. -/
theorem planRow_total (T : Tables) (now : Time) (plan : String) :
    (planRow T now plan).total =
      (planRow T now plan).available + (planRow T now plan).used +
        (planRow T now plan).expired := by
  unfold planRow Table.count
  simp only
  induction T.credentials.rows with
  | nil => rfl
  | cons c rows ih =>
    have hone := class_cases c now
    simp only [List.countP_cons, Bool.and_eq_true, decide_eq_true_eq]
    by_cases hplan : c.planType = plan
    · simp only [hplan, if_true, true_and]
      omega
    · simp only [hplan, if_false, false_and]
      omega

/-- The available credentials of a plan are the ones that are counted for it. -/
theorem planRow_available (T : Tables) (now : Time) (plan : String) :
    (planRow T now plan).available = countAvailableCredentialsByPlan T now plan := by
  unfold planRow countAvailableCredentialsByPlan Table.count
  refine List.countP_congr fun c _ => ?_
  simp [Credential.isAvailable, and_assoc]

/-- For a plan, `GetUnusedCredential` may return the credentials of the plan that are available. -/
theorem available_iff (hplan : plan ≠ "") :
    c.available now plan = true ↔ c.planType = plan ∧ c.isAvailable now = true := by
  unfold Credential.available Credential.isAvailable
  simp only [hplan, decide_false, Bool.false_or, Bool.and_eq_true, decide_eq_true_eq]
  tauto

/-- A credential is available in the inventory exactly if the plan's count is not zero. -/
theorem getUnusedCredential_isSome_iff (hplan : plan ≠ "") :
    (getUnusedCredential T now unlocked plan).isSome = true ↔
      1 ≤ countAvailableCredentialsByPlan T now plan := by
  rw [← planRow_available, Option.isSome_iff_ne_none, ne_eq, getUnusedCredential_eq_none]
  have hzero := Table.count_eq_zero (t := T.credentials)
    (p := fun c => c.planType = plan && c.isAvailable now)
  have hcount : (planRow T now plan).available =
      T.credentials.count fun c => c.planType = plan && c.isAvailable now := rfl
  rw [hcount, Nat.one_le_iff_ne_zero, ne_eq, hzero]
  simp only [available_iff hplan, unlocked, Bool.and_eq_true, decide_eq_true_eq,
    Bool.false_eq_true, imp_false]

/-- The plans that are listed are those of the credentials, each once. -/
theorem listCredentialPlans_planType (T : Tables) (now : Time) :
    ((listCredentialPlans T now).map ListCredentialPlansRow.planType).Nodup ∧
      ∀ p, p ∈ (listCredentialPlans T now).map ListCredentialPlansRow.planType ↔
        ∃ c ∈ T.credentials, c.planType = p := by
  have hmap : (listCredentialPlans T now).map ListCredentialPlansRow.planType =
      (T.credentials.rows.map Credential.planType).dedup.mergeSort fun p q => p ≤ q := by
    unfold listCredentialPlans
    rw [List.map_map]
    exact List.map_id _
  have hperm := List.mergeSort_perm (T.credentials.rows.map Credential.planType).dedup
    fun p q => decide (p ≤ q)
  rw [hmap]
  refine ⟨hperm.nodup_iff.mpr (List.nodup_dedup _), fun p => ?_⟩
  rw [hperm.mem_iff, List.mem_dedup, List.mem_map]
  rfl

/-- A row that is listed has the aggregates of its plan. -/
theorem eq_planRow {row : ListCredentialPlansRow} (h : row ∈ listCredentialPlans T now) :
    row = planRow T now row.planType := by
  obtain ⟨p, -, rfl⟩ := List.mem_map.mp h
  rfl

/-- The aggregates after a credential of a plan was handed out. -/
def ListCredentialPlansRow.handOut (plan : String) (row : ListCredentialPlansRow) :
    ListCredentialPlansRow :=
  if row.planType = plan then { row with available := row.available - 1, used := row.used + 1 }
  else row

/-- Marking a credential changes the aggregates of its plan only. -/
theorem planRow_markUsed (hc : T.credentials.get? c.id = some c) (hplan : c.planType = plan)
    (havailable : c.isAvailable now = true) (redemption : ℕ) (p : String) :
    1 ≤ (planRow T now plan).available ∧
      planRow (T.apply (.markCredentialUsed c.id redemption)) now p =
        (planRow T now p).handOut plan := by
  have hmodify : ∀ q : Credential → Bool,
      (T.credentials.modify c.id (Credential.markUsed redemption)
          (Credential.key_markUsed redemption)).count q + (if q c then 1 else 0) =
        T.credentials.count q + if q (c.markUsed redemption) then 1 else 0 :=
    fun q => Table.count_modify_get? hc q
  -- One row moves from available to used, so the four counts change as its class does.
  have htotal := hmodify fun x => x.planType = p
  have hcount := hmodify fun x => x.planType = p && x.isAvailable now
  have hused := hmodify fun x => x.planType = p && x.used
  have hexpired := hmodify fun x => x.planType = p && x.isExpired now
  have hunused : c.used = false := by
    unfold Credential.isAvailable at havailable
    rw [Bool.and_eq_true, Bool.not_eq_true'] at havailable
    exact havailable.1
  have hnotExpired : c.isExpired now = false := by
    have hone := class_cases c now
    simp only [havailable, hunused, if_true] at hone
    by_contra htrue
    rw [Bool.not_eq_false] at htrue
    simp [htrue] at hone
  have hmarked : (c.markUsed redemption).planType = c.planType := rfl
  have hmarkedUsed : (c.markUsed redemption).used = true := rfl
  have hmarkedAvailable : (c.markUsed redemption).isAvailable now = false := rfl
  have hmarkedExpired : (c.markUsed redemption).isExpired now = false := rfl
  have hpos : 1 ≤ (planRow T now plan).available := by
    have hcounted : ∃ x ∈ T.credentials.rows, (x.planType = plan && x.isAvailable now) = true :=
      ⟨c, Table.mem_of_get? hc, by simp [hplan, havailable]⟩
    exact List.countP_pos_iff.mpr hcounted
  refine ⟨hpos, ?_⟩
  simp only [hmarked, hmarkedUsed, hmarkedAvailable, hmarkedExpired, havailable, hunused,
    hnotExpired,
    hplan, Bool.and_false, Bool.and_true, Bool.false_eq_true, if_false, decide_eq_true_eq]
    at htotal hcount hused hexpired
  unfold ListCredentialPlansRow.handOut
  have htype : (planRow T now p).planType = p := rfl
  rw [htype]
  -- Only the plan of the credential is affected.
  by_cases hp : p = plan
  · subst hp
    rw [if_pos rfl]
    rw [if_pos rfl] at htotal hcount hused
    unfold planRow Tables.apply
    simp only [ListCredentialPlansRow.mk.injEq, true_and]
    refine ⟨?_, ?_, ?_, ?_⟩ <;> omega
  · rw [if_neg hp]
    rw [if_neg (Ne.symm hp)] at htotal hcount hused
    unfold planRow Tables.apply
    simp only [ListCredentialPlansRow.mk.injEq, true_and]
    refine ⟨?_, ?_, ?_, ?_⟩ <;> omega

/-- Marking a credential as used keeps the plans that there are. -/
theorem planTypes_markUsed (T : Tables) (id redemption : ℕ) :
    (T.apply (.markCredentialUsed id redemption)).credentials.rows.map Credential.planType =
      T.credentials.rows.map Credential.planType := by
  unfold Tables.apply Table.modify
  simp only [List.map_map]
  refine List.map_congr_left fun x _ => ?_
  simp only [Function.comp_apply]
  split_ifs <;> rfl

/-- Marking a credential hands one out of its plan's row. -/
theorem listCredentialPlans_markUsed (hc : T.credentials.get? c.id = some c)
    (hplan : c.planType = plan) (havailable : c.isAvailable now = true) (redemption : ℕ) :
    listCredentialPlans (T.apply (.markCredentialUsed c.id redemption)) now =
      (listCredentialPlans T now).map (ListCredentialPlansRow.handOut plan) := by
  unfold listCredentialPlans
  rw [planTypes_markUsed, List.map_map]
  exact List.map_congr_left fun p _ => (planRow_markUsed hc hplan havailable redemption p).2

/-- The plan of a new batch that assigns credentials is the one that the request was checked with,
and it is not empty. -/
theorem plan_of_validated {rt : Runtime} {request : CreateBatchRequest}
    (hvalid : validateCreateBatch rt request.normalized = [])
    (hassign : request.assignCredential = true)
    (expiresAt : Option Time) (payload : Json) (id : ℕ) :
    ((request.normalized.params rt expiresAt).row payload id).credentialPlanType =
      request.normalized.credentialPlanType ∧ request.normalized.credentialPlanType ≠ "" := by
  have htrim : trimSpace request.normalized.credentialPlanType =
      request.normalized.credentialPlanType := trimFunc_trimFunc (fun _ h => h) _
  refine ⟨htrim, fun hempty => ?_⟩
  have herrors : planErrors request.normalized = [] := by
    unfold validateCreateBatch at hvalid
    simp only [List.append_eq_nil_iff] at hvalid
    exact hvalid.1.2
  have hassign' : request.normalized.assignCredential = true := hassign
  unfold planErrors at herrors
  rw [if_pos hassign', hempty] at herrors
  exact absurd herrors (by decide)

/-- How the inventory's queries and the allocation agree in some tables at an instant. -/
structure InventoryAgrees (T : Tables) (now : Time) : Prop where
  /-- There is one row for each plan. -/
  nodup : ((listCredentialPlans T now).map ListCredentialPlansRow.planType).Nodup
  plans : ∀ p, p ∈ (listCredentialPlans T now).map ListCredentialPlansRow.planType ↔
    ∃ c ∈ T.credentials, c.planType = p
  /-- The classes of a plan are disjoint, and together its credentials. -/
  classes : ∀ c : Credential, ¬ (c.isAvailable now = true ∧ c.used = true) ∧
    ¬ (c.isAvailable now = true ∧ c.isExpired now = true) ∧
    ¬ (c.used = true ∧ c.isExpired now = true)
  total : ∀ row ∈ listCredentialPlans T now,
    row.total = (T.credentials.count fun c => c.planType = row.planType) ∧
      row.total = row.available + row.used + row.expired
  available : ∀ row ∈ listCredentialPlans T now,
    row.available = countAvailableCredentialsByPlan T now row.planType
  /-- A credential is found for a plan exactly if one is counted, and it is the first one. -/
  found : ∀ plan ≠ "", (getUnusedCredential T now unlocked plan).isSome = true ↔
    1 ≤ countAvailableCredentialsByPlan T now plan
  first : ∀ plan ≠ "", ∀ c, getUnusedCredential T now unlocked plan = some c →
    c ∈ T.credentials ∧ (c.planType = plan ∧ c.isAvailable now = true) ∧
      ∀ c' ∈ T.credentials, c'.planType = plan ∧ c'.isAvailable now = true → c.id ≤ c'.id
  /-- A transaction that nothing blocks can be answered with that credential, and with none only if
  there is none. -/
  answered : ∀ (ctx : Ctx Tables Seqs Lock) (plan : String) (choice : Choice), ctx.view = T →
    ctx.now = now → (∀ id, ctx.busy (.credential id) = false) →
    match getUnusedCredential T now unlocked plan with
    | some c => Query.exec ctx (.getUnusedCredential plan) { choice with pick := c.id } =
        some (.ok ⟨some c, [], [.credential c.id], ctx.seq⟩)
    | none => Query.exec ctx (.getUnusedCredential plan) choice = answer ctx none
  /-- A batch that passes the check of `CreateBatch` can serve a redemption. -/
  served : ∀ (rt : Runtime) (request : CreateBatchRequest) (expiresAt : Option Time)
    (payload : Json)
    (id : ℕ), validateCreateBatch rt request.normalized = [] → request.assignCredential = true →
    ¬ countAvailableCredentialsByPlan T now request.normalized.credentialPlanType < 1 →
    (getUnusedCredential T now unlocked
      ((request.normalized.params rt expiresAt).row payload id).credentialPlanType).isSome = true
  /-- Marking the credential takes one from the available ones to the used ones. -/
  marked : ∀ plan ≠ "", ∀ c redemption, getUnusedCredential T now unlocked plan = some c →
    1 ≤ (planRow T now plan).available ∧
      planRow (T.apply (.markCredentialUsed c.id redemption)) now plan =
        { planRow T now plan with
          available := (planRow T now plan).available - 1
          used := (planRow T now plan).used + 1 } ∧
      listCredentialPlans (T.apply (.markCredentialUsed c.id redemption)) now =
        (listCredentialPlans T now).map (ListCredentialPlansRow.handOut plan)

/-- For all tables and at every instant, the inventory and the allocation agree. -/
theorem inventory_agrees (T : Tables) (now : Time) : InventoryAgrees T now := by
  obtain ⟨hnodup, hplans⟩ := listCredentialPlans_planType T now
  refine ⟨hnodup, hplans, fun c => ?_, fun row hrow => ?_, fun row hrow => ?_,
    fun plan hplan => getUnusedCredential_isSome_iff hplan, fun plan hplan c hc => ?_, ?_, ?_, ?_⟩
  · -- A credential is in exactly one class.
    have hone := class_cases c now
    refine ⟨fun h => ?_, fun h => ?_, fun h => ?_⟩
    all_goals
      simp only [h.1, h.2, if_true] at hone
      omega
  · rw [eq_planRow hrow]
    exact ⟨rfl, planRow_total T now _⟩
  · rw [eq_planRow hrow]
    exact planRow_available T now _
  · obtain ⟨hmem, havailable, -, hmin⟩ := getUnusedCredential_eq_some hc
    refine ⟨hmem, (available_iff hplan).mp havailable, fun c' hc' h' => ?_⟩
    exact hmin c' hc' ((available_iff hplan).mpr h') rfl
  · -- The query takes a row exactly when one is left that nobody has locked.
    rintro ctx plan choice rfl rfl hfree
    have hlocked : (fun id => ctx.busy (.credential id)) = unlocked := funext hfree
    split
    · rename_i c hc
      exact exec_getUnusedCredential_some (hlocked ▸ hc) choice
    · rename_i hnone
      exact exec_getUnusedCredential_none (hlocked ▸ hnone) choice
  · -- The check of the inventory has found at least one credential of the plan.
    intro rt request expiresAt payload id hvalid hassign hcount
    obtain ⟨heq, hne⟩ := plan_of_validated hvalid hassign expiresAt payload id
    rw [heq]
    exact (getUnusedCredential_isSome_iff hne).mpr (not_lt.mp hcount)
  · intro plan hplan c redemption hc
    obtain ⟨hmem, havailable, -, -⟩ := getUnusedCredential_eq_some hc
    obtain ⟨htype, havailable⟩ := (available_iff hplan).mp havailable
    have hrow : T.credentials.get? c.id = some c := Table.get?_of_mem hmem
    obtain ⟨hpos, hmarked⟩ := planRow_markUsed hrow htype havailable redemption plan
    refine ⟨hpos, ?_, listCredentialPlans_markUsed hrow htype havailable redemption⟩
    rw [hmarked]
    unfold ListCredentialPlansRow.handOut
    exact if_pos rfl

end CdkSystem
