import CdkSystem.Proof.Running

/-!
# Uses are accounted for

A code's use count is the number of its successful redemptions, and it does not exceed the maximum
of the code's batch (`Tables.Accounted`). Every transition keeps this: a success counts a use of the
one code that it inserts a redemption for, after it has checked the code's row under the row's lock.

The commit of a success is where the argument lies. Its check of the code was made on the row that
it had locked, so the use count that it increments is the one that it has checked, and the count of
the successful redemptions goes up by one together with it. A business failure inserts a row with
another result, and a new batch brings codes that nothing has redeemed yet. The invariant then holds
after every commit of a history, from any tables without codes.
-/

namespace CdkSystem

open RowLock Relational

/-- The number of successful redemptions of a code. -/
def Tables.successes (T : Tables) (id : ℕ) : ℕ :=
  T.redemptions.count fun r => r.result = .success && r.codeId = some id

/-- The use counts are the numbers of successes, and within the maximum. -/
structure Tables.Accounted (T : Tables) : Prop where
  count : ∀ c ∈ T.codes, c.useCount = T.successes c.id
  bound : ∀ c ∈ T.codes, ∀ b, T.batches.get? c.batchId = some b → c.useCount ≤ b.maxUsesPerCode

section Tables

variable {T T' : Tables}

/-- The account is about codes, batches and successes. -/
theorem Tables.Accounted.congr (h : T.Accounted) (hcodes : T'.codes = T.codes)
    (hbatches : T'.batches = T.batches) (hsucc : ∀ id, T'.successes id = T.successes id) :
    T'.Accounted := by
  refine ⟨fun c hc => ?_, fun c hc b hb => ?_⟩
  · rw [hsucc]
    exact h.count c (hcodes ▸ hc)
  · exact h.bound c (hcodes ▸ hc) b (hbatches ▸ hb)

/-- A change of a redemption's webhook is no change of the successes. -/
theorem successes_modify {id : ℕ} {f : Redemption → Redemption} (hf : ∀ r, key (f r) = key r)
    (h : T'.redemptions = T.redemptions.modify id f hf)
    (hresult : ∀ r, (f r).result = r.result ∧ (f r).codeId = r.codeId) (codeID : ℕ) :
    T'.successes codeID = T.successes codeID := by
  unfold Tables.successes
  rw [h]
  refine Table.count_modify fun r _ _ => ?_
  rw [(hresult r).1, (hresult r).2]

/-- No redemption refers to a code that does not exist. -/
theorem successes_eq_zero (hT : T.Integrity) {id : ℕ} (h : T.codes.get? id = none) :
    T.successes id = 0 := by
  refine Table.count_eq_zero.mpr fun r hr hp => ?_
  simp only [Bool.and_eq_true, decide_eq_true_eq] at hp
  obtain ⟨c, hc⟩ := hT.redemptionCode r hr id hp.2
  rw [h] at hc
  cases hc

/-- Tables without codes are accounted for. -/
theorem Tables.Accounted.of_codes_empty (h : T.codes = ∅) : T.Accounted := by
  refine ⟨fun c hc => ?_, fun c hc => ?_⟩ <;>
  · rw [h] at hc
    cases hc

/-- The rows of inserted codes are the old ones and the new ones. -/
theorem mem_codes_created {cs : List Code} {c : Code} {T : Tables}
    (h : c ∈ (postgres.applyAll T (cs.map .createCode)).codes) : c ∈ T.codes ∨ c ∈ cs := by
  induction cs generalizing T with
  | nil => exact Or.inl h
  | cons x cs ih =>
    rcases ih h with h | h
    · rcases Table.mem_or_eq_of_mem_insert h with h | rfl
      · exact Or.inl h
      · exact Or.inr (by simp)
    · exact Or.inr (by simp [h])

end Tables

variable {ι : Type} {start : Start ι} {log : List (Commit ι Tables)} {e : Commit ι Tables}
  {call : Call}

/-- A success counts a use of its code, which had one left. -/
theorem Tables.Accounted.succeeded {g : Grant} {past : Tables → Prop} {req : RedeemRequest}
    {rt : Runtime} {clock time : Time} {T T' : Tables} (h : T.Accounted)
    (hg : g.InOrder rt clock time past T req) (hpast : ∀ T', past T' → Evolves T' T)
    (hcodes : T'.codes = T.codes.modify g.code.id Code.incrementUseCount Code.key_incrementUseCount)
    (hbatches : T'.batches = T.batches)
    (hred : T'.redemptions = T.redemptions.insert g.redemption) :
    T'.Accounted := by
  have hrow : g.redemption = g.row rt req := hg.row
  have hresult : g.redemption.result = .success := by rw [hrow]; rfl
  have hcode : g.redemption.codeId = some g.code.id := by rw [hrow]; rfl
  have hsucc : ∀ id, T'.successes id = T.successes id + if id = g.code.id then 1 else 0 := by
    intro id
    unfold Tables.successes
    rw [hred, Table.count_insert hg.new]
    simp [hresult, hcode, eq_comm]
  -- The maximum is that of the batch at the time of the check.
  obtain ⟨T₀, hT₀, hb₀⟩ := hg.found.batch
  obtain ⟨b₁, hb₁, status, rfl⟩ := (hpast T₀ hT₀).batches _ _ hb₀
  obtain ⟨now, -, -, hcheck⟩ := hg.checked
  have hcodeMem : g.code ∈ T.codes := Table.mem_of_get? hg.found.row
  refine ⟨fun c hc => ?_, fun c hc b hb => ?_⟩ <;> rw [hcodes] at hc <;>
    obtain ⟨c', hc', rfl⟩ := Table.mem_modify.mp hc <;> split_ifs with hid
  · have hcid : c'.id = g.code.id := hid
    rw [hsucc, show (Code.incrementUseCount c').id = c'.id from rfl, if_pos hcid]
    push_cast
    rw [← h.count c' hc']
    rfl
  · have hcid : ¬ c'.id = g.code.id := hid
    rw [hsucc, if_neg hcid, Nat.add_zero]
    exact h.count c' hc'
  · rw [if_pos hid] at hb
    have hcc : c' = g.code := Table.key_injective hc' hcodeMem hid
    subst hcc
    rw [hbatches, show (Code.incrementUseCount g.code).batchId = g.code.batchId from rfl, hb₁,
      Option.some.injEq] at hb
    have hlt := (checkCodeState_eq_none hcheck).2
    rw [← hb]
    exact hlt
  · rw [if_neg hid] at hb
    exact h.bound c' hc' b (hbatches ▸ hb)

/-- A redemption keeps the account. -/
theorem Redeemed.accounted {past : Tables → Prop} {req : RedeemRequest} {rt : Runtime}
    {clock : Time}
    {resp : RedeemResponse} (h : Redeemed rt clock past req e resp)
    (hpast : ∀ T', past T' → Evolves T' e.before) (hT : e.before.Accounted) :
    e.after.Accounted := by
  cases h with
  | @refused codeID batchID resp result id createdAt reason known new hcreated free after =>
    rw [after, tables_refused]
    refine hT.congr rfl rfl fun code => ?_
    unfold Tables.successes
    have hnew : e.before.redemptions.get?
        (key (refusedRow rt req codeID batchID resp result id createdAt)) = none := new
    rw [Table.count_insert hnew]
    have hresult : (refusedRow rt req codeID batchID resp result id createdAt).result ≠ .success :=
      fun h => reason.result_ne.1 (known.trans (congrArg ResultText.known h))
    simp [hresult]
  | succeeded inOrder response free after =>
    exact hT.succeeded inOrder hpast (by rw [after, tables_succeeded])
      (by rw [after, tables_succeeded]) (by rw [after, tables_succeeded])

/-- A new batch with its new codes keeps the account. -/
theorem BatchCreated.accounted {rt : Runtime} {req : CreateBatchRequest} {draws : List (Fin 31)}
    {b : Batch} {cs : List Code} (h : BatchCreated rt req draws e b cs)
    (hint : e.before.Integrity) (hT : e.before.Accounted) : e.after.Accounted := by
  have hred : e.after.redemptions = e.before.redemptions := by
    rw [h.after, Dbms.applyAll_cons, applyAll_map_same Tables.redemptions fun _ _ => rfl]
    rfl
  have hsucc : ∀ id, e.after.successes id = e.before.successes id := fun id => by
    unfold Tables.successes
    rw [hred]
  have hbatches : e.after.batches = e.before.batches.insert b := by
    rw [h.after, Dbms.applyAll_cons, applyAll_map_same Tables.batches fun _ _ => rfl]
    rfl
  -- The codes afterwards are those before and the new ones, which nobody has redeemed.
  have hmem : ∀ c ∈ e.after.codes, c ∈ e.before.codes ∨ c ∈ cs := by
    intro c hc
    rw [h.after] at hc
    exact mem_codes_created (T := e.before.apply (.createBatch b)) hc
  have hbnew : e.before.batches.get? (key b) = none := h.batch.new
  refine ⟨fun c hc => ?_, fun c hc b' hb' => ?_⟩ <;> rcases hmem c hc with hc | hc
  · rw [hsucc]
    exact hT.count c hc
  · rw [hsucc, successes_eq_zero hint (h.codes c hc).new, (h.codes c hc).useCount]
    rfl
  · -- The batch of an old code is an old one, since every code has a batch.
    obtain ⟨b₀, hb₀⟩ := hint.codeBatch c hc
    rw [hbatches, Table.get?_insert_of_get? hb₀] at hb'
    exact hT.bound c hc b' (hb₀.trans hb')
  · rw [hbatches, (h.codes c hc).batch, show b.id = key b from rfl, Table.get?_insert_self hbnew,
      Option.some.injEq] at hb'
    rw [(h.codes c hc).useCount, ← hb']
    have := h.batch.valid.maxUses.1
    omega

variable [DecidableEq ι]

/-- A transition keeps the account. -/
theorem Transition.accounted (h : Transition start log e call)
    (hpast : ∀ T', Past log e.before T' → Evolves T' e.before) (hint : e.before.Integrity)
    (hT : e.before.Accounted) : e.after.Accounted := by
  cases h with
  | idle after => exact after ▸ hT
  | redeem h => exact h.accounted hpast hT
  | batchItem hcode h => exact h.accounted hpast hT
  | batchStored hkey tally all free after =>
    rw [after, tables_stored]
    exact hT.congr rfl rfl fun _ => rfl
  | createdBatch h => exact h.accounted hint hT
  -- Of the other transitions only toggles touch batches or codes, and they keep the counts.
  | @toggledBatch id after =>
    rw [after]
    refine ⟨hT.count, fun c hc b hb => ?_⟩
    change (e.before.batches.modify id _ Batch.key_toggleStatus).get? _ = _ at hb
    rw [Table.get?_modify] at hb
    split_ifs at hb with hid
    · rw [Option.map_eq_some_iff] at hb
      obtain ⟨b₀, hb₀, rfl⟩ := hb
      exact hT.bound c hc b₀ (hid ▸ hb₀)
    · exact hT.bound c hc b hb
  | @toggledCode id after =>
    rw [after]
    refine ⟨forall_mem_modify (by intro r; rfl) hT.count fun _ hr => hr,
      forall_mem_modify (by intro r; rfl) hT.bound fun _ hr => hr⟩
  | resent row success finished redemptionEvent new outboxEvent outbox after =>
    rw [after]
    exact hT.congr rfl rfl (successes_modify (Redemption.key_prepareResend _) rfl
      fun _ => ⟨rfl, rfl⟩)
  | imported new after =>
    rw [after]
    refine hT.congr ?_ ?_ fun id => ?_
    · exact applyAll_map_same Tables.codes (fun _ _ => rfl) _ _
    · exact applyAll_map_same Tables.batches (fun _ _ => rfl) _ _
    · exact applyAll_map_same (fun T => T.successes id) (fun _ _ => rfl) _ _
  | deleted ids hcall after =>
    rw [after]
    refine hT.congr ?_ ?_ fun id => ?_
    · exact applyAll_map_same Tables.codes (fun _ _ => rfl) _ _
    · exact applyAll_map_same Tables.batches (fun _ _ => rfl) _ _
    · exact applyAll_map_same (fun T => T.successes id) (fun _ _ => rfl) _ _
  | leased h =>
    obtain ⟨o, token, expires, -, -, -, after⟩ := h
    rw [after]
    exact hT.congr rfl rfl fun _ => rfl
  | outboxReported report lease row token leased finishes retries after =>
    rw [after]
    exact hT.congr rfl rfl fun _ => rfl
  | redemptionReported report row event redemption current reports agrees after =>
    rw [after]
    exact hT.congr rfl rfl (successes_modify (Redemption.key_updateWebhookStatus _) rfl
      fun _ => ⟨rfl, rfl⟩)

/-- The account is kept from the start to the end of a history. -/
theorem History.accounted {T : Tables} (h : History start log T) (h0 : start.tables.Accounted) :
    T.Accounted := by
  induction h with
  | start => exact h0
  | @commit log e h time he ih =>
    exact he.accounted (fun T' hT' => h.past_evolves hT') (h.integrity (Or.inl rfl)) ih

/-- When the service starts without codes, then in every state that any interleaving of its calls
reaches, each code has as many uses as successful redemptions and at most its batch's maximum, and a
use that `Redeem` counts is always there to be counted. -/
theorem uses_accounted {as : List (Action ι Choice)} {s : State ι} (hcodes : start.tables.codes = ∅)
    (h : start.run as = some s) :
    (∀ c ∈ s.db.tables.codes, c.useCount = s.db.tables.successes c.id ∧
      ∃ b, s.db.tables.batches.get? c.batchId = some b ∧ c.useCount ≤ b.maxUsesPerCode) ∧
    ∀ i t id n k, s.progs i = some (.op (.query t (.incrementCodeUseCount id n)) k) →
      ∀ c d, s.db.perform postgres i (.query t (.incrementCodeUseCount id n)) c ≠
        some (.ok none, d) := by
  have hT := (Start.history h).accounted (.of_codes_empty hcodes)
  refine ⟨fun c hc => ⟨hT.count c hc, ?_⟩, fun i t id n k hp c d hperform => ?_⟩
  · obtain ⟨b, hb⟩ := ((Start.history h).integrity (Or.inl rfl)).codeBatch c hc
    exact ⟨b, hb, hT.bound c hc b hb⟩
  · -- Before the query, the outline asserts that the code can be counted, so it is.
    have hcount : Countable i t id n s.db := Start.asserts h hp
    simp only [Db.perform] at hperform
    cases htx : s.db.txs i t with
    | none => simp [htx] at hperform
    | some tx =>
      simp only [htx] at hperform
      split_ifs at hperform
      · cases hperform
      split at hperform
      · cases hperform
      · cases hperform
      · rename_i e he
        split_ifs at hperform
        obtain ⟨x, hx, hstatus, hlt⟩ := hcount tx htx
        rcases exec_incrementCodeUseCount (c := c) he with ⟨-, hnot⟩ | ⟨y, -, -, -, rfl⟩
        · exact hnot x hx ⟨hstatus, hlt⟩
        · cases hperform

/-- A call that creates a batch with one code, and one that redeems the code. -/
def createAndRedeem : Start Bool :=
  Start.of
    (fun
      | false => .createBatch ⟨"b", "", "{}", "", 8, 1, 2, 1, none, "", "", false, ""⟩
          (List.replicate 8 0)
      | true => .redeem ⟨"u", "AAAA-AAAA", "", ""⟩)
    .empty ⟨0, 0, 0, 0, 0⟩ Tables.empty_below Tables.checkIntegrity_empty

/-- The choice when there is nothing to choose. -/
def anyChoice : Choice := ⟨0, "", .unsent⟩

/-- The batch is created, and then the code is redeemed. -/
def createThenRedeem : List (Action Bool Choice) :=
  List.replicate 5 (.exec false anyChoice) ++ List.replicate 9 (.exec true anyChoice)

/-- After the code has been redeemed once, its use count is one. -/
theorem uses_accounted_once : ∃ s, createAndRedeem.run createThenRedeem = some s ∧
    ∀ c ∈ s.db.tables.codes, c.useCount = s.db.tables.successes c.id ∧
      ∃ b, s.db.tables.batches.get? c.batchId = some b ∧ c.useCount ≤ b.maxUsesPerCode := by
  obtain ⟨s, hs⟩ := Option.isSome_iff_exists.mp
    (show (createAndRedeem.run createThenRedeem).isSome = true by rfl)
  exact ⟨s, hs, (uses_accounted rfl hs).1⟩

/-- Its one success is there. -/
example : (createAndRedeem.run createThenRedeem).map (fun s =>
    s.db.tables.codes.rows.map fun c => (c.useCount, s.db.tables.successes c.id)) =
      some [(1, 1)] := by rfl

end CdkSystem
