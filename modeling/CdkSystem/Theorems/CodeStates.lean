import CdkSystem.Listing
import CdkSystem.Redeem
import CdkSystem.System

/-!
# The states of codes in the administration

The state of a code is written out in three queries, in the `FILTER` clauses of `GetBatchCounts`,
and, in another order and together with the batch, in `checkCodeState`. All of them agree
(`code_states_agree`): the states divide the codes of a batch, the list of a state is the part of
the whole list that has it, and the state says how a redemption is refused.

The three queries and `GetBatchCounts` are compared as functions of a row and its batch, in the
tables of one snapshot. The states partition the rows (`countP_states`), and sorting by `id` does
not depend on whether the rows were filtered before or after it (`byCodeId_filter`), so the pages of
a state are pages of a part of the whole list. `checkCodeState` looks at the batch between its looks
at the code, so what it answers is stated case by case (`Predicts`).
-/

namespace CdkSystem

open RowLock Relational Paging

variable {T : Tables} {batchID : ℤ} {now : Time} {c : Code} {b : Batch}

/-- A code has one of the four states, and only one. -/
theorem state_cases (state : CodeState) :
    (if state.label = "active" then 1 else 0) + (if state.label = "partused" then 1 else 0) +
      (if state.label = "used" then 1 else 0) + (if state.label = "disabled" then 1 else 0) =
        1 := by
  cases state <;> decide

/-- The codes of the four states together are all joined rows. -/
theorem countP_states (rows : List (Code × Batch)) :
    (rows.countP fun row => (codeState row.1 row.2).label = "active") +
      (rows.countP fun row => (codeState row.1 row.2).label = "partused") +
      (rows.countP fun row => (codeState row.1 row.2).label = "used") +
      (rows.countP fun row => (codeState row.1 row.2).label = "disabled") = rows.length := by
  induction rows with
  | nil => rfl
  | cons row rows ih =>
    have hone := state_cases (codeState row.1 row.2)
    simp only [List.countP_cons, decide_eq_true_eq, List.length_cons]
    omega

/-- Each code of a batch is joined with its batch. -/
theorem codesOfBatch_map_fst (hT : T.Integrity) (batchID : ℤ) :
    (codesOfBatch T batchID).map Prod.fst =
      T.codes.rows.filter fun c => (c.batchId : ℤ) = batchID := by
  unfold codesOfBatch
  have hmem : ∀ c ∈ T.codes.rows.filter fun c => (c.batchId : ℤ) = batchID, c ∈ T.codes :=
    fun c hc => List.mem_of_mem_filter hc
  generalize T.codes.rows.filter (fun c => (c.batchId : ℤ) = batchID) = codes at hmem ⊢
  induction codes with
  | nil => rfl
  | cons c codes ih =>
    obtain ⟨b, hb⟩ := hT.codeBatch c (hmem c List.mem_cons_self)
    have hih := ih fun c' hc' => hmem c' (List.mem_cons_of_mem c hc')
    simp only [List.filterMap_cons, hb, Option.map_some, List.map_cons, hih]

/-- The join has as many rows as the batch has codes. -/
theorem length_codesOfBatch (hT : T.Integrity) (batchID : ℤ) :
    (codesOfBatch T batchID).length = countCodesByBatch T batchID := by
  have hmap := congrArg List.length (codesOfBatch_map_fst hT batchID)
  rw [List.length_map] at hmap
  rw [hmap, countCodesByBatch, Table.count, List.countP_eq_length_filter]

/-- The codes that are listed have distinct `id`s, so each of them is counted once. -/
theorem nodup_ids_codeRow (hT : T.Integrity) (batchID : ℤ) :
    (((codesOfBatch T batchID).map codeRow).map fun row => row.code.id).Nodup := by
  have hids : ((codesOfBatch T batchID).map codeRow).map (fun row => row.code.id) =
      ((codesOfBatch T batchID).map Prod.fst).map key := by
    rw [List.map_map, List.map_map]
    rfl
  rw [hids, codesOfBatch_map_fst hT]
  exact T.codes.nodup.sublist (List.filter_sublist.map key)

/-- The list of a state is the part of the whole list that has the state. -/
theorem byCodeId_filter (hT : T.Integrity) (batchID : ℤ) (state : String) :
    byCodeId (((codesOfBatch T batchID).filter
      fun row => (codeState row.1 row.2).label = state).map codeRow) =
    (byCodeId ((codesOfBatch T batchID).map codeRow)).filter fun row => row.state = state := by
  unfold byCodeId
  have hfilter : ((codesOfBatch T batchID).filter
      fun row => (codeState row.1 row.2).label = state).map codeRow =
      ((codesOfBatch T batchID).map codeRow).filter fun row => row.state = state := by
    rw [List.filter_map]
    rfl
  rw [hfilter]
  exact mergeSort_filter (f := fun row : ListCodesByBatchRow => row.code.id)
    (nodup_ids_codeRow hT batchID) _

/-- A batch's row for a code that `GetCodeByCode` reads is in the join. -/
theorem mem_codesOfBatch (hc : c ∈ T.codes) (hb : T.batches.get? c.batchId = some b) :
    (c, b) ∈ codesOfBatch T c.batchId := by
  unfold codesOfBatch
  refine List.mem_filterMap.mpr ⟨c, ?_, by simp [hb]⟩
  exact List.mem_filter.mpr ⟨hc, by simp⟩

/-- The batch of a code has expired at a time. -/
def Batch.ExpiredAt (b : Batch) (now : Time) : Prop := ∃ t, b.expiresAt = some t ∧ t < now

/-- How a redemption is refused for the state of the code and its batch. -/
structure Predicts (state : String) (b : Batch) (now : Time) (refused : Option ResultText) :
    Prop where
  codeDisabled : refused = some (.known .codeDisabled) ↔ state = "disabled"
  batchDisabled : refused = some (.known .batchDisabled) ↔ state ≠ "disabled" ∧ b.status = .disabled
  expired : refused = some (.known .expired) ↔
    state ≠ "disabled" ∧ b.status ≠ .disabled ∧ b.ExpiredAt now
  usedUp : refused = some (.known .codeUsedUp) ↔
    state ≠ "disabled" ∧ b.status ≠ .disabled ∧ ¬ b.ExpiredAt now ∧ state = "used"
  accepted : refused = none ↔
    state ≠ "disabled" ∧ b.status ≠ .disabled ∧ ¬ b.ExpiredAt now ∧
      (state = "active" ∨ state = "partused")

/-- The label of a code is `disabled` if the code is, whatever its uses. -/
theorem label_codeState (c : Code) (b : Batch) :
    (codeState c b).label =
      if c.status = .disabled then "disabled"
      else if b.maxUsesPerCode ≤ c.useCount then "used"
      else if 0 < c.useCount then "partused" else "active" := by
  unfold codeState
  split_ifs <;> rfl

/-- `checkCodeState` refuses a code as its state says. -/
theorem checkCodeState_predicts (c : Code) (b : Batch) (now : Time) :
    Predicts (codeState c b).label b now ((checkCodeState now c b).map RedeemResponse.result) := by
  have hexpired : (b.expiresAt.any (· < now)) = true ↔ b.ExpiredAt now := by
    unfold Batch.ExpiredAt
    cases b.expiresAt <;> simp
  rw [label_codeState]
  unfold checkCodeState
  -- The checks are made in their order; only the last one looks at the uses.
  by_cases hdisabled : c.status = .disabled
  · constructor <;> simp [hdisabled, failure]
  by_cases hbatch : b.status = .disabled
  · constructor <;> simp [hdisabled, hbatch, failure] <;> split_ifs <;> simp
  by_cases htime : b.ExpiredAt now
  · constructor <;>
      simp [hdisabled, hbatch, hexpired, htime, failure] <;> split_ifs <;> simp
  by_cases hused : b.maxUsesPerCode ≤ c.useCount
  · constructor <;> simp [hdisabled, hbatch, hexpired, htime, hused, failure]
  · by_cases hpart : 0 < c.useCount
    · constructor <;> simp [hdisabled, hbatch, hexpired, htime, hused, hpart]
    · constructor <;> simp [hdisabled, hbatch, hexpired, htime, hused, hpart]

/-- The counts, the lists and the checks of codes agree in some tables and for a batch. -/
structure CodeStatesAgree (T : Tables) (batchID : ℤ) : Prop where
  /-- The four counts sum up to the number of codes. -/
  counts : countCodesByBatchAndState T batchID "active" +
    countCodesByBatchAndState T batchID "partused" + countCodesByBatchAndState T batchID "used" +
    countCodesByBatchAndState T batchID "disabled" = countCodesByBatch T batchID
  /-- The whole list, and the lists of the states as parts of it. -/
  lists : ∃ rows, listCodesByBatch T batchID (countCodesByBatch T batchID) 0 = some rows ∧
    (∀ limit offset, listCodesByBatch T batchID limit offset = sqlPage limit offset rows) ∧
    ∀ state limit offset, listCodesByBatchAndState T batchID state limit offset =
      sqlPage limit offset (rows.filter fun row => row.state = state)
  /-- The counts on the page of the batch. -/
  disabled : (getBatchCounts T batchID).disabled = countCodesByBatchAndState T batchID "disabled"
  usedup : (getBatchCounts T batchID).usedup = countCodesByBatchAndState T batchID "used"
  /-- A code that is read to be redeemed is in the list of its batch, with a state that says how the
  redemption is refused. -/
  checks : ∀ (ctx : Ctx Tables Seqs Lock) (text : String) (choice : Choice) (c : Code) (b : Batch),
    ctx.view = T → (c.batchId : ℤ) = batchID →
    Query.exec ctx (.getCodeByCode text) choice = answer ctx (some (c, b)) →
    ∃ rows, listCodesByBatch T batchID (countCodesByBatch T batchID) 0 = some rows ∧
      ∃ row ∈ rows, row.code = c ∧
        (∀ row' ∈ rows, row'.code.id = c.id → row' = row) ∧
        ∀ now, Predicts row.state b now ((checkCodeState now c b).map RedeemResponse.result)

/-- A page as long as the list is the list. -/
theorem sqlPage_all {α : Type} {rows : List α} {n : ℕ} (h : rows.length = n) :
    sqlPage n 0 rows = some rows := by
  unfold sqlPage
  rw [if_neg (by omega)]
  simp [slice, ← h]

/-- The whole list of a batch's codes. -/
theorem listCodesByBatch_all (hT : T.Integrity) (batchID : ℤ) :
    listCodesByBatch T batchID (countCodesByBatch T batchID) 0 =
      some (byCodeId ((codesOfBatch T batchID).map codeRow)) := by
  refine sqlPage_all ?_
  unfold byCodeId
  rw [List.length_mergeSort, List.length_map, length_codesOfBatch hT]

/-- The `FILTER` of `GetBatchCounts` for used codes is the state `used`. -/
theorem usedup_eq (T : Tables) (batchID : ℤ) :
    (getBatchCounts T batchID).usedup = countCodesByBatchAndState T batchID "used" := by
  refine List.countP_congr fun row _ => ?_
  rw [label_codeState]
  by_cases hdisabled : row.1.status = .disabled
  · simp [hdisabled]
  · by_cases hused : row.2.maxUsesPerCode ≤ row.1.useCount
    · simp [hdisabled, hused]
    · by_cases hpart : 0 < row.1.useCount
      · simp [hdisabled, hused, hpart]
      · simp [hdisabled, hused, hpart]

/-- The `FILTER` of `GetBatchCounts` for disabled codes is the state `disabled`. -/
theorem disabled_eq (T : Tables) (batchID : ℤ) :
    (getBatchCounts T batchID).disabled = countCodesByBatchAndState T batchID "disabled" := by
  refine List.countP_congr fun row _ => ?_
  rw [label_codeState]
  by_cases hdisabled : row.1.status = .disabled
  · simp [hdisabled]
  · simp only [hdisabled, if_false]
    split_ifs <;> simp

/-- In all tables that satisfy the constraints, and for every batch, the states of the codes agree:
in the counts, the lists, and in what a redemption checks. -/
theorem code_states_agree (hT : T.Integrity) (batchID : ℤ) : CodeStatesAgree T batchID := by
  refine ⟨?_, ?_, disabled_eq T batchID, usedup_eq T batchID, ?_⟩
  · unfold countCodesByBatchAndState
    rw [countP_states, length_codesOfBatch hT]
  · refine ⟨_, listCodesByBatch_all hT batchID, fun _ _ => rfl, fun state limit offset => ?_⟩
    unfold listCodesByBatchAndState
    rw [byCodeId_filter hT]
  · rintro ctx text choice c b rfl rfl hread
    refine ⟨_, listCodesByBatch_all hT _, ?_⟩
    -- The code that is read is a row of the table, and the batch is its own.
    have hfound : (ctx.view.codes.rows.find? fun c => c.code = text).bind (fun c =>
        (ctx.view.batches.get? c.batchId).map fun b => (c, b)) = some (c, b) := by
      have hanswer := congrArg (fun o : Outcome (Option (Code × Batch)) =>
        o.bind fun r => r.toOption.map Effect.ans) hread
      simpa [Query.exec, answer, Except.toOption] using hanswer
    obtain ⟨c', hc', hb⟩ := Option.bind_eq_some_iff.mp hfound
    obtain ⟨b', hb', heq⟩ := Option.map_eq_some_iff.mp hb
    obtain ⟨rfl, rfl⟩ := Prod.mk.inj heq
    have hmem : c' ∈ ctx.view.codes := List.mem_of_find?_eq_some hc'
    have hrow : codeRow (c', b') ∈ byCodeId ((codesOfBatch ctx.view c'.batchId).map codeRow) :=
      List.mem_mergeSort.mpr (List.mem_map_of_mem (mem_codesOfBatch hmem hb'))
    refine ⟨_, hrow, rfl, fun row' hrow' hid => ?_, fun now => checkCodeState_predicts c' b' now⟩
    exact List.inj_on_of_nodup_map (nodup_ids_codeRow hT _) (List.mem_mergeSort.mp hrow')
      (List.mem_mergeSort.mp hrow) hid

/-- A batch whose codes can be used twice. -/
def twiceBatch : Batch :=
  { id := 1, name := "b", description := "", payloadJson := .obj [], codePrefix := ""
    codeLength := 8, expiresAt := none, maxUsesPerCode := 2, maxRedeemsPerUser := 1
    webhookUrl := "", webhookSecret := "", assignCredential := false, credentialPlanType := ""
    status := .active }

/-- There is no other batch with its key. -/
theorem twiceBatch_nodup : ([twiceBatch].map key).Nodup := by decide

/-- A batch with a code of each state. -/
def fourStates : Tables :=
  { Tables.empty with
    batches := ⟨[twiceBatch], twiceBatch_nodup⟩
    codes := ⟨[⟨1, 1, "A", .unused, 0⟩, ⟨2, 1, "B", .unused, 1⟩, ⟨3, 1, "C", .unused, 2⟩,
      ⟨4, 1, "D", .disabled, 2⟩], by decide⟩ }

/-- The codes of a batch with all four states. -/
theorem code_states_agree_four : CodeStatesAgree fourStates 1 ∧
    countCodesByBatchAndState fourStates 1 "used" = 1 ∧ countCodesByBatch fourStates 1 = 4 :=
  ⟨code_states_agree (Tables.integrity_of_check (by decide +kernel)) 1, by decide +kernel,
    by decide +kernel⟩

end CdkSystem
