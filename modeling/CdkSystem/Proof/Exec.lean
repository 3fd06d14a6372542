import CdkSystem.Queries

/-!
# What each query does

One lemma for each query: when it is executed and does not fail, what it has read, and its answer,
changes and locks. Nothing else unfolds `Query.exec`.

They are used by the rules of the outline, where a statement's answer is given and what it means has
to be found. A query that can fail because of a constraint has its guard in the lemma, so that the
caller learns that the constraint was satisfied.
-/

namespace CdkSystem

open RowLock Relational

section Exec

variable {ctx : Ctx Tables Seqs Lock} {c : Choice}

/-- What a query with `SKIP LOCKED` does, if it returns: it finds no row, and then every row that
satisfies the condition is locked, or one that satisfies the condition and is not locked. -/
theorem skipLocked_ok {R A : Type} [HasKey R ℕ] {t : Table R} {p : R → Bool} {lock : ℕ → Lock}
    {pick : ℕ} {none' : A} {found : R → Effect Seqs Write Lock A} {e : Effect Seqs Write Lock A}
    (h : skipLocked ctx t p lock pick none' found = some (.ok e)) :
    (e = ⟨none', [], [], ctx.seq⟩ ∧ ∀ r ∈ t, p r = true → ctx.busy (lock (key r)) = true) ∨
    ∃ r ∈ t, p r = true ∧ ctx.busy (lock (key r)) = false ∧ e = found r := by
  unfold skipLocked at h
  simp only at h
  split_ifs at h with he
  · left
    simp only [answer, Option.some.injEq, Except.ok.injEq] at h
    refine ⟨h.symm, fun r hr hp => ?_⟩
    rw [List.isEmpty_iff, List.filter_eq_nil_iff] at he
    simpa [hp] using he r hr
  · right
    simp only [Option.map_eq_some_iff, Except.ok.injEq] at h
    obtain ⟨r, hr, rfl⟩ := h
    have hm := List.mem_of_find?_eq_some hr
    rw [List.mem_filter, Bool.and_eq_true, Bool.not_eq_true'] at hm
    exact ⟨r, hm.1, hm.2.1, hm.2.2, rfl⟩

/-- `CreateBatch` inserts a valid batch under a new `id`, or it fails. -/
theorem exec_createBatch {p : CreateBatchParams} {e : Effect Seqs Write Lock Batch}
    (h : Query.exec ctx (.createBatch p) c = some (.ok e)) :
    ∃ payload, p.payloadJson = some payload ∧ (p.row payload ctx.seq.batches).Valid ∧
      e = ⟨p.row payload ctx.seq.batches, [.createBatch (p.row payload ctx.seq.batches)],
        [.batch ctx.seq.batches], { ctx.seq with batches := ctx.seq.batches + 1 }⟩ := by
  simp only [Query.exec] at h
  split at h
  · cases h
  · rename_i payload hp
    split_ifs at h with hv
    · cases h
      exact ⟨payload, hp, hv, rfl⟩
    · cases h

/-- `GetBatchByID` reads the row of a batch and changes nothing. -/
theorem exec_getBatchByID {id : ℕ} {e : Effect Seqs Write Lock (Option Batch)}
    (h : Query.exec ctx (.getBatchByID id) c = some (.ok e)) :
    e = ⟨ctx.view.batches.get? id, [], [], ctx.seq⟩ := by
  cases h
  rfl

/-- `ToggleBatchStatus` changes the batch if there is one. -/
theorem exec_toggleBatchStatus {id : ℕ} {e : Effect Seqs Write Lock (Option Batch)}
    (h : Query.exec ctx (.toggleBatchStatus id) c = some (.ok e)) :
    e = ⟨none, [], [], ctx.seq⟩ ∨
    ∃ b, ctx.view.batches.get? id = some b ∧
      e = ⟨some b.toggleStatus, [.toggleBatchStatus id], [.batch id], ctx.seq⟩ := by
  simp only [Query.exec] at h
  split at h
  · cases h
    exact Or.inl rfl
  · rename_i b hb
    cases h
    exact Or.inr ⟨b, hb, rfl⟩

/-- `CreateCodes` inserts codes that are well formed, whose batches exist, and whose texts are new
and distinct. -/
theorem exec_createCodes {ps : List CreateCodesParams} {e : Effect Seqs Write Lock ℕ}
    (h : Query.exec ctx (.createCodes ps) c = some (.ok e)) :
    let rows := codeRows ctx.seq.codes ps
    (∀ x ∈ rows, validCode x.code = true ∧ (∃ b, ctx.view.batches.get? x.batchId = some b) ∧
      ¬ ctx.view.HasCodeText x.code) ∧
    (rows.map Code.code).Nodup ∧
    e = ⟨rows.length, rows.map .createCode,
      rows.map (fun x => .code x.id) ++ rows.map fun x => .codeText x.code,
      { ctx.seq with codes := ctx.seq.codes + rows.length }⟩ := by
  simp only [Query.exec] at h
  split_ifs at h with hv
  · cases h
    refine ⟨fun x hx => ?_, hv.2, rfl⟩
    have := List.all_eq_true.mp hv.1 x hx
    simp only [ne_eq, decide_not, Bool.and_eq_true, Option.isSome_iff_exists, List.all_eq_true,
      Bool.not_eq_true', decide_eq_false_iff_not] at this
    refine ⟨this.1.1, this.1.2, ?_⟩
    rintro ⟨y, hy, he⟩
    exact this.2 y hy he
  · cases h

/-- `GetCodeByCode` reads a code with its batch. -/
theorem exec_getCodeByCode {code : String} {e : Effect Seqs Write Lock (Option (Code × Batch))}
    (h : Query.exec ctx (.getCodeByCode code) c = some (.ok e)) :
    (e = ⟨none, [], [], ctx.seq⟩ ∧
      (¬ ctx.view.HasCodeText code ∨
        ∃ x ∈ ctx.view.codes, ctx.view.batches.get? x.batchId = none)) ∨
    ∃ x b, ctx.view.codes.get? x.id = some x ∧ x.code = code ∧
      ctx.view.batches.get? x.batchId = some b ∧ e = ⟨some (x, b), [], [], ctx.seq⟩ := by
  simp only [Query.exec, answer, Option.some.injEq, Except.ok.injEq] at h
  subst h
  cases hx : ctx.view.codes.rows.find? fun x => decide (x.code = code) with
  | none =>
    refine Or.inl ⟨rfl, Or.inl ?_⟩
    rintro ⟨x, hm, he⟩
    simpa [he] using List.find?_eq_none.mp hx x hm
  | some x =>
    have hm : x ∈ ctx.view.codes := List.mem_of_find?_eq_some hx
    have he : x.code = code := by simpa using List.find?_some hx
    cases hb : ctx.view.batches.get? x.batchId with
    | none => exact Or.inl ⟨by simp [hb], Or.inr ⟨x, hm, hb⟩⟩
    | some b => exact Or.inr ⟨x, b, Table.get?_of_mem hm, he, hb, by simp [hb]⟩

/-- The second part of `GetCodeByCode` locks the code. -/
theorem exec_getCodeByCodeForUpdate {id : ℕ} {e : Effect Seqs Write Lock (Option Code)}
    (h : Query.exec ctx (.getCodeByCodeForUpdate id) c = some (.ok e)) :
    (ctx.view.codes.get? id = none ∧ e = ⟨none, [], [], ctx.seq⟩) ∨
    ∃ x, ctx.view.codes.get? id = some x ∧ e = ⟨some x, [], [.code id], ctx.seq⟩ := by
  simp only [Query.exec] at h
  split at h
  · rename_i hx
    cases h
    exact Or.inl ⟨hx, rfl⟩
  · rename_i x hx
    cases h
    exact Or.inr ⟨x, hx, rfl⟩

/-- `ToggleCodeStatus` changes the code if there is one. -/
theorem exec_toggleCodeStatus {id : ℕ} {e : Effect Seqs Write Lock (Option Code)}
    (h : Query.exec ctx (.toggleCodeStatus id) c = some (.ok e)) :
    e = ⟨none, [], [], ctx.seq⟩ ∨
    ∃ x, ctx.view.codes.get? id = some x ∧
      e = ⟨some x.toggleStatus, [.toggleCodeStatus id], [.code id], ctx.seq⟩ := by
  simp only [Query.exec] at h
  split at h
  · cases h
    exact Or.inl rfl
  · rename_i x hx
    cases h
    exact Or.inr ⟨x, hx, rfl⟩

/-- `IncrementCodeUseCount` counts a use of a code that is not disabled and has one left. -/
theorem exec_incrementCodeUseCount {id : ℕ} {n : ℤ} {e : Effect Seqs Write Lock (Option (ℕ × ℤ))}
    (h : Query.exec ctx (.incrementCodeUseCount id n) c = some (.ok e)) :
    (e = ⟨none, [], [], ctx.seq⟩ ∧
      ∀ x, ctx.view.codes.get? id = some x → ¬ (x.status = .unused ∧ x.useCount < n)) ∨
    ∃ x, ctx.view.codes.get? id = some x ∧ x.status = .unused ∧ x.useCount < n ∧
      e = ⟨some (id, x.useCount + 1), [.incrementCodeUseCount id], [.code id], ctx.seq⟩ := by
  simp only [Query.exec] at h
  split at h
  · rename_i hx
    cases h
    exact Or.inl ⟨rfl, by simp [hx]⟩
  · rename_i x hx
    split_ifs at h with hc
    · cases h
      exact Or.inr ⟨x, hx, hc.1, hc.2, rfl⟩
    · cases h
      refine Or.inl ⟨rfl, fun y hy => ?_⟩
      rw [hx, Option.some.injEq] at hy
      exact hy ▸ hc

/-- `CreateIdempotencyKey` inserts the key if it is new. -/
theorem exec_createIdempotencyKey {k : String} {hash : List UInt8}
    {e : Effect Seqs Write Lock (Option IdempotencyKey)}
    (h : Query.exec ctx (.createIdempotencyKey k hash) c = some (.ok e)) :
    (∃ row, ctx.view.keys.get? k = some row ∧ e = ⟨none, [], [], ctx.seq⟩) ∨
    (ctx.view.keys.get? k = none ∧
      e = ⟨some ⟨k, hash, none⟩, [.createIdempotencyKey ⟨k, hash, none⟩], [.key k], ctx.seq⟩) := by
  simp only [Query.exec] at h
  split_ifs at h
  · split at h
    · rename_i row hrow
      cases h
      exact Or.inl ⟨row, hrow, rfl⟩
    · rename_i hrow
      cases h
      exact Or.inr ⟨hrow, rfl⟩
  · cases h

/-- `LockIdempotencyKeyByKey` reads and locks the key's row. -/
theorem exec_lockIdempotencyKeyByKey {k : String}
    {e : Effect Seqs Write Lock (Option IdempotencyKey)}
    (h : Query.exec ctx (.lockIdempotencyKeyByKey k) c = some (.ok e)) :
    (ctx.view.keys.get? k = none ∧ e = ⟨none, [], [], ctx.seq⟩) ∨
    ∃ row, ctx.view.keys.get? k = some row ∧ e = ⟨some row, [], [.key k], ctx.seq⟩ := by
  simp only [Query.exec] at h
  split at h
  · rename_i hrow
    cases h
    exact Or.inl ⟨hrow, rfl⟩
  · rename_i row hrow
    cases h
    exact Or.inr ⟨row, hrow, rfl⟩

/-- `SetIdempotencyResponse` stores the response in the key's row, if there is one. -/
theorem exec_setIdempotencyResponse {k : String} {body : Json} {e : Effect Seqs Write Lock Unit}
    (h : Query.exec ctx (.setIdempotencyResponse k body) c = some (.ok e)) :
    (ctx.view.keys.get? k = none ∧ e = ⟨(), [], [], ctx.seq⟩) ∨
    ∃ row, ctx.view.keys.get? k = some row ∧
      e = ⟨(), [.setIdempotencyResponse k body], [.key k], ctx.seq⟩ := by
  simp only [Query.exec] at h
  split_ifs at h
  · cases h
  · split at h
    · rename_i hrow
      cases h
      exact Or.inl ⟨hrow, rfl⟩
    · rename_i row hrow
      cases h
      exact Or.inr ⟨row, hrow, rfl⟩

/-- `CreateRedemption` inserts a redemption whose references exist and whose event is new. -/
theorem exec_createRedemption {p : CreateRedemptionParams} {e : Effect Seqs Write Lock Redemption}
    (h : Query.exec ctx (.createRedemption p) c = some (.ok e)) :
    let r := p.row ctx.seq.redemptions ctx.now
    p.valid = true ∧ p.references ctx.view = true ∧
    (∀ event, p.eventId = some event → ¬ ctx.view.HasRedemptionEvent event) ∧
    e = ⟨r, [.createRedemption r], .redemption r.id :: r.eventId.toList.map .redemptionEvent,
      { ctx.seq with redemptions := ctx.seq.redemptions + 1 }⟩ := by
  simp only [Query.exec] at h
  split_ifs at h with hv
  · cases h
    simp only [Bool.and_eq_true] at hv
    refine ⟨hv.1.1, hv.1.2, fun event he => ?_, rfl⟩
    rintro ⟨r, hr, hre⟩
    have := hv.2
    simp only [he, Option.all_some, List.all_eq_true] at this
    simpa [hre] using this r hr
  · cases h

/-- `GetRedemptionByID` reads the row of a redemption and changes nothing. -/
theorem exec_getRedemptionByID {id : ℕ} {e : Effect Seqs Write Lock (Option Redemption)}
    (h : Query.exec ctx (.getRedemptionByID id) c = some (.ok e)) :
    e = ⟨ctx.view.redemptions.get? id, [], [], ctx.seq⟩ := by
  cases h
  rfl

/-- `UpdateRedemptionWebhookStatus` changes a redemption whose current event is the given one. -/
theorem exec_updateRedemptionWebhookStatus {p : UpdateRedemptionWebhookStatusParams}
    {e : Effect Seqs Write Lock ℕ}
    (h : Query.exec ctx (.updateRedemptionWebhookStatus p) c = some (.ok e)) :
    (e = ⟨0, [], [], ctx.seq⟩ ∧
      ∀ r, ctx.view.redemptions.get? p.id = some r → r.eventId ≠ some p.eventId) ∨
    ∃ r response, ctx.view.redemptions.get? p.id = some r ∧ r.eventId = some p.eventId ∧
      textOfBytes? p.webhookResponse = some response ∧ response.length ≤ 500 ∧
      e = ⟨1, [.updateRedemptionWebhookStatus p.id ⟨p.webhookStatus, response⟩],
        [.redemption p.id], ctx.seq⟩ := by
  simp only [Query.exec] at h
  split at h
  · cases h
  · rename_i response hresponse
    split at h
    · rename_i hr
      cases h
      exact Or.inl ⟨rfl, by simp [hr]⟩
    · rename_i r hr
      split_ifs at h with he hl
      · cases h
        exact Or.inr ⟨r, response, hr, he, hresponse, hl, rfl⟩
      · cases h
      · cases h
        refine Or.inl ⟨rfl, fun r' hr' => ?_⟩
        rw [hr, Option.some.injEq] at hr'
        exact hr' ▸ he

/-- `PrepareRedemptionWebhookResend` changes a success whose webhook is not pending. -/
theorem exec_prepareRedemptionWebhookResend {id : ℕ} {event : String}
    {e : Effect Seqs Write Lock ℕ}
    (h : Query.exec ctx (.prepareRedemptionWebhookResend id event) c = some (.ok e)) :
    e = ⟨0, [], [], ctx.seq⟩ ∨
    ∃ r, ctx.view.redemptions.get? id = some r ∧ r.result = .success ∧
      r.webhookStatus ∈ [WebhookStatus.success, .failed, .deadLetter] ∧
      ¬ ctx.view.HasRedemptionEvent event ∧
      e = ⟨1, [.prepareRedemptionWebhookResend id event],
        [.redemption id, .redemptionEvent event], ctx.seq⟩ := by
  simp only [Query.exec] at h
  split at h
  · cases h
    exact Or.inl rfl
  · rename_i r hr
    split_ifs at h with hc hv
    · cases h
      refine Or.inr ⟨r, hr, hc.1, hc.2, ?_, rfl⟩
      rintro ⟨r', hr', he⟩
      simp only [Bool.and_eq_true, List.all_eq_true] at hv
      simpa [he] using hv.2 r' hr'
    · cases h
    · cases h
      exact Or.inl rfl

/-- `CreateWebhookOutboxEvent` inserts an event that is new, for a redemption that exists. -/
theorem exec_createWebhookOutboxEvent {event : String} {id : ℕ}
    {e : Effect Seqs Write Lock WebhookOutbox}
    (h : Query.exec ctx (.createWebhookOutboxEvent event id) c = some (.ok e)) :
    let o : WebhookOutbox := newOutboxEvent ctx.seq.outbox event id ctx.now
    (∃ r, ctx.view.redemptions.get? id = some r) ∧ ¬ ctx.view.HasOutboxEvent event ∧
    e = ⟨o, [.createWebhookOutboxEvent o], [.outbox o.id, .outboxEvent event],
      { ctx.seq with outbox := ctx.seq.outbox + 1 }⟩ := by
  simp only [Query.exec] at h
  split_ifs at h with hv
  · cases h
    simp only [Bool.and_eq_true, Option.isSome_iff_exists, List.all_eq_true] at hv
    refine ⟨hv.1.2, ?_, rfl⟩
    rintro ⟨o, ho, he⟩
    simpa [he] using hv.2 o ho
  · cases h

/-- `LeaseWebhookOutboxEvent` leases a due event and locks it, or it finds none. -/
theorem exec_leaseWebhookOutboxEvent {token : String}
    {e : Effect Seqs Write Lock (Option WebhookOutbox)}
    (h : Query.exec ctx (.leaseWebhookOutboxEvent token) c = some (.ok e)) :
    e = ⟨none, [], [], ctx.seq⟩ ∨
    ∃ o, ctx.view.outbox.get? o.id = some o ∧ o.due ctx.now = true ∧
      e = ⟨some (o.lease token (ctx.now + leaseTime)),
        [.leaseWebhookOutboxEvent o.id token (ctx.now + leaseTime)], [.outbox o.id], ctx.seq⟩ := by
  rcases skipLocked_ok h with ⟨rfl, -⟩ | ⟨o, ho, hdue, -, rfl⟩
  · exact Or.inl rfl
  · exact Or.inr ⟨o, Table.get?_of_mem ho, hdue, rfl⟩

/-- `UpdateWebhookOutboxSuccess` and `UpdateWebhookOutboxFailed` change an event under its lease. -/
theorem exec_updateWebhookOutbox {p : UpdateWebhookOutboxParams} {e : Effect Seqs Write Lock ℕ}
    (h : Query.exec ctx (.updateWebhookOutbox p) c = some (.ok e)) :
    e = ⟨0, [], [], ctx.seq⟩ ∨
    ∃ o response, ctx.view.outbox.get? p.id = some o ∧ o.leaseToken.isSome = true ∧
      o.leaseToken = p.leaseToken ∧ textOfBytes? p.lastResponse = some response ∧
      response.length ≤ 500 ∧
      e = ⟨1, [.updateWebhookOutbox p.id ⟨p.status, response, p.scheduledAt⟩], [.outbox p.id],
        ctx.seq⟩ := by
  simp only [Query.exec] at h
  split at h
  · cases h
  · rename_i response hresponse
    split at h
    · cases h
      exact Or.inl rfl
    · rename_i o ho
      split_ifs at h with ht hl
      · cases h
        exact Or.inr ⟨o, response, ho, ht.1, ht.2, hresponse, hl, rfl⟩
      · cases h
      · cases h
        exact Or.inl rfl

/-- `CreateCredential` inserts an unused credential under a new `id`. -/
theorem exec_createCredential {p : CreateCredentialParams} {e : Effect Seqs Write Lock Credential}
    (h : Query.exec ctx (.createCredential p) c = some (.ok e)) :
    e = ⟨p.row ctx.seq.credentials, [.createCredential (p.row ctx.seq.credentials)],
      [.credential ctx.seq.credentials],
      { ctx.seq with credentials := ctx.seq.credentials + 1 }⟩ := by
  simp only [Query.exec] at h
  split_ifs at h
  · cases h
    rfl
  · cases h

/-- `DeleteCredential` deletes the credential if there is one. -/
theorem exec_deleteCredential {id : ℕ} {e : Effect Seqs Write Lock ℕ}
    (h : Query.exec ctx (.deleteCredential id) c = some (.ok e)) :
    e = ⟨0, [], [], ctx.seq⟩ ∨ e = ⟨1, [.deleteCredential id], [.credential id], ctx.seq⟩ := by
  simp only [Query.exec] at h
  split at h
  · cases h
    exact Or.inl rfl
  · cases h
    exact Or.inr rfl

/-- `GetUnusedCredential` locks an available credential, and finds none only if all available
credentials are locked by others. -/
theorem exec_getUnusedCredential {plan : String} {e : Effect Seqs Write Lock (Option Credential)}
    (h : Query.exec ctx (.getUnusedCredential plan) c = some (.ok e)) :
    (e = ⟨none, [], [], ctx.seq⟩ ∧ ∀ r ∈ ctx.view.credentials, r.available ctx.now plan = true →
      ctx.busy (.credential r.id) = true) ∨
    ∃ r, ctx.view.credentials.get? r.id = some r ∧ r.available ctx.now plan = true ∧
      e = ⟨some r, [], [.credential r.id], ctx.seq⟩ := by
  rcases skipLocked_ok h with ⟨rfl, hall⟩ | ⟨r, hr, ha, -, rfl⟩
  · exact Or.inl ⟨rfl, hall⟩
  · exact Or.inr ⟨r, Table.get?_of_mem hr, ha, rfl⟩

/-- `MarkCredentialUsed` changes the credential if there is one. -/
theorem exec_markCredentialUsed {id r : ℕ} {e : Effect Seqs Write Lock (Option Credential)}
    (h : Query.exec ctx (.markCredentialUsed id r) c = some (.ok e)) :
    (ctx.view.credentials.get? id = none ∧ e = ⟨none, [], [], ctx.seq⟩) ∨
    ∃ x, ctx.view.credentials.get? id = some x ∧
      e = ⟨some (x.markUsed r), [.markCredentialUsed id r], [.credential id], ctx.seq⟩ := by
  simp only [Query.exec] at h
  split at h
  · rename_i hx
    cases h
    exact Or.inl ⟨hx, rfl⟩
  · rename_i x hx
    split_ifs at h
    · cases h
      exact Or.inr ⟨x, hx, rfl⟩
    · cases h

/-- `CountAvailableCredentialsByPlan` only reads: it changes and locks nothing. -/
theorem exec_countAvailableCredentialsByPlan {plan : String} {e : Effect Seqs Write Lock ℕ}
    (h : Query.exec ctx (.countAvailableCredentialsByPlan plan) c = some (.ok e)) :
    e.writes = [] ∧ e.locks = [] ∧ e.seq = ctx.seq := by
  cases h
  exact ⟨rfl, rfl, rfl⟩

end Exec

end CdkSystem
