import CdkSystem.Proof.Rules

/-!
# The handlers of the administration keep to their specification

Every handler makes only transitions of its call. The creation of a batch is the longest: its
transaction inserts the batch and then all codes, and the locks on the new rows and texts keep them
new until the commit.

The other handlers make one statement, or a few in a transaction, and for each of them the
transition is the one that its call names. In the creation of a batch the specification of the loop
that inserts the codes says which rows the transaction holds so far (`createBatchTx` goes through
them in order), so that at the commit the whole list of writes is known.
-/

namespace CdkSystem

open RowLock Relational

variable {ι : Type} [DecidableEq ι] {start : Start ι} {i : ι} {d base : Database ι}

/-! ## Creating a batch -/

omit [DecidableEq ι] in
/-- The texts of inserted codes are those of the parameters. -/
theorem map_code_codeRows (next : ℕ) (ps : List CreateCodesParams) :
    (codeRows next ps).map Code.code = ps.map CreateCodesParams.code := by
  induction ps generalizing next with
  | nil => rfl
  | cons p ps ih => rw [codeRows, List.map_cons, List.map_cons, ih]

omit [DecidableEq ι] in
/-- The codes that one statement inserts have different `id`s, which count up from the sequence. -/
theorem nodup_codeRows (next : ℕ) (ps : List CreateCodesParams) :
    ((codeRows next ps).map Code.id).Nodup := by
  induction ps generalizing next with
  | nil => simp [codeRows]
  | cons p ps ih =>
    rw [codeRows, List.map_cons, List.nodup_cons]
    refine ⟨fun hmem => ?_, ih _⟩
    obtain ⟨c, hc, hid⟩ := List.mem_map.mp hmem
    have hlt : next + 1 ≤ c.id := (mem_codeRows hc).1
    rw [hid] at hlt
    exact absurd hlt (Nat.not_succ_le_self next)

omit [DecidableEq ι] in
/-- Inserted codes are unused codes of their batch. -/
theorem codeRows_unused {next id : ℕ} {codes : List String} {c : Code}
    (h : c ∈ codeRows next (codes.map fun code => ⟨id, code⟩)) :
    c.batchId = id ∧ c.status = .unused ∧ c.useCount = 0 := by
  induction codes generalizing next with
  | nil => simp [codeRows] at h
  | cons code codes ih =>
    rw [List.map_cons, codeRows, List.mem_cons] at h
    rcases h with rfl | h
    · exact ⟨rfl, rfl, rfl⟩
    · exact ih h

/-- That codes and their texts are new is steady under the locks on them. -/
theorem steady_codes {ls : List Lock} {cs : List Code}
    (h : ∀ c ∈ cs, Lock.code c.id ∈ ls ∧ Lock.codeText c.code ∈ ls) :
    start.Steady ls fun d =>
      ∀ c ∈ cs, d.tables.codes.get? c.id = none ∧ ¬ d.tables.HasCodeText c.code :=
  fun d d' hsame hle hi hi' hf c hc =>
    ⟨steady_code (fun r => r = none) (h c hc).1 d d' hsame hle hi hi' (hf c hc).1,
      steady_codeText (h c hc).2 d d' hsame hle hi hi' (hf c hc).2⟩

/-- What the transaction that creates a batch leaves. -/
def Start.BatchTx (start : Start ι) (i : ι) (req : CreateBatchRequest) (draws : List (Fin 31))
    (base : Database ι) : Except GoError ℕ → Database ι → Prop
  | .ok _, d => ∃ e b cs, BatchCreated start.rt req draws e b cs ∧
      d.ownLog i = base.ownLog i ++ [e]
  | .error _, d => d.ownLog i = base.ownLog i

/-- The batch and its codes are inserted and committed. -/
theorem createBatchTx_wp {req : CreateBatchRequest} {draws : List (Fin 31)} {secret : String}
    {expiresAt : Option Time} {now : Time} (hcall : start.calls i = .createBatch req draws)
    (haccepted : validateCreateBatch start.rt req.normalized = [])
    (h : start.Held i .tx base now [] [] (fun _ => True) d) :
    start.Wp i (createBatchTx start.rt { req.normalized with webhookSecret := secret } expiresAt
      draws).run (fun r d' => start.Inv d' ∧ start.RollsBack i .tx d' ∧
        start.BatchTx i req draws base r d') d := by
  have hlost : ∀ (err : GoError) d', start.Lost i (some .tx) base d' → start.Inv d' ∧
      start.RollsBack i .tx d' ∧ start.BatchTx i req draws base (.error err) d' :=
    fun _ d' hl => ⟨hl.after.inv, Or.inr (Or.inl hl.failing.failed), hl.failing.log⟩
  unfold createBatchTx
  refine Go.wp_bind (Go.wp_query h (fun _ => trivial) (fun d' hl => hlost _ d' hl) fun _ e he => ?_)
  obtain ⟨payload, -, hvalid, rfl⟩ := exec_createBatch he
  generalize hb : CreateBatchParams.row (CreateBatchRequest.params start.rt
    { req.normalized with webhookSecret := secret } expiresAt) payload d.seq.batches = b at hvalid
  have hbid : b.id = d.seq.batches := by rw [← hb]; rfl
  have hbnew : d.tables.batches.get? b.id = none :=
    Table.get?_eq_none_iff.mpr fun r hr =>
      hbid ▸ (h.after.inv.seq.tables.batches r hr).ne
  refine ⟨_, hbnew, steady_batch (fun r => r = none) (by simp [hbid]), fun d₁ h₁ => ?_⟩
  dsimp only
  cases hcodes : generateCodes (toUpper req.normalized.codePrefix) req.normalized.codeLength.toNat
      req.normalized.count.toNat draws with
  | none =>
    refine Go.wp_bind (Go.wp_env h₁ (steady_batch (fun r => r = none) (by simp [hbid]))
      fun _ never _ _ _ _ => nomatch never)
  | some codes =>
    refine Go.wp_bind (Go.wp_query h₁ (fun _ => trivial) (fun d' hl => hlost _ d' hl)
      fun _ e he => ?_)
    obtain ⟨hrows, hnodup, rfl⟩ := exec_createCodes he
    generalize hcs : codeRows d₁.seq.codes (codes.map fun code => ⟨b.id, code⟩) = cs at hrows hnodup
    have hlen : cs.length = codes.length := by rw [← hcs, length_codeRows, List.length_map]
    have hcsnew : ∀ c ∈ cs, d₁.tables.codes.get? c.id = none := by
      intro c hc
      have := (mem_codeRows (hcs ▸ hc)).1
      refine Table.get?_eq_none_iff.mpr fun r hr => ?_
      have hr' : r.id < d₁.seq.codes := h₁.after.inv.seq.tables.codes r hr
      have hkey : key r = r.id := rfl
      omega
    -- The locks keep the batch, the codes and their texts new.
    refine ⟨fun d' => d'.tables.batches.get? b.id = none ∧
        ∀ c ∈ cs, d'.tables.codes.get? c.id = none ∧ ¬ d'.tables.HasCodeText c.code,
      ⟨h₁.facts, fun c hc => ⟨hcsnew c hc, (hrows c hc).2.2⟩⟩,
      (steady_batch (fun r => r = none) (by simp [hbid])).and (steady_codes fun c hc => ?_),
      fun d₂ h₂ => ?_⟩
    · have hid := List.mem_map_of_mem (f := fun x : Code => Lock.code x.id) hc
      have htext := List.mem_map_of_mem (f := fun x : Code => Lock.codeText x.code) hc
      simp only [List.nil_append, List.mem_append]
      exact ⟨Or.inr (Or.inl hid), Or.inr (Or.inr htext)⟩
    dsimp only
    rw [if_neg (by rw [hlen]; simp)]
    have hcreated : BatchCreated start.rt req draws
        ⟨i, d₂.clock, d₂.tables, postgres.applyAll d₂.tables
          ([] ++ [.createBatch b] ++ cs.map .createCode)⟩ b cs := by
      refine ⟨⟨haccepted, h₂.facts.1, hvalid, secret, expiresAt, payload, ?_⟩, ?_, fun c hc => ?_,
        fun c hc => (hrows c hc).1, ?_, hnodup, rfl⟩
      · rw [hbid, hb]
      · rw [← hcs, map_code_codeRows, List.map_map]
        refine hcodes.trans ?_
        simp [Function.comp_def]
      · obtain ⟨hbatch, hstatus, hcount⟩ := codeRows_unused (hcs ▸ hc)
        exact ⟨(h₂.facts.2 c hc).1, hbatch, hstatus, hcount, (h₂.facts.2 c hc).2⟩
      · rw [← hcs]
        exact nodup_codeRows _ _
    refine Go.wp_bind (Go.wp_commit h₂ ⟨?_, fun id _ ho => ?_, ?_⟩ (fun d' hl => hlost _ d' hl)
      fun d' _ hclosed hd => ?_)
    · rw [hcall]
      exact .createdBatch hcreated
    · have := (h₂.tx.locks _).mp ho
      simp at this
    · intro breq hbreq
      rw [hcall] at hbreq
      cases hbreq
    · exact Go.wp_pure ⟨hd.after.inv, Or.inl hclosed, _, _, _, hcreated, hd.log⟩

/-- The end of `CreateBatch`: the transaction of the batch and its codes, and the reply about it. -/
theorem createCheckedBatch_wp {req : CreateBatchRequest} {draws : List (Fin 31)} {secret : String}
    {expiresAt : Option Time} (hcall : start.calls i = .createBatch req draws)
    (haccepted : validateCreateBatch start.rt req.normalized = []) (hinv : start.Inv d)
    (hidle : ∀ e ∈ d.ownLog i, e.after = e.before) :
    start.Wp i (createCheckedBatch start.rt { req.normalized with webhookSecret := secret }
      expiresAt draws) (fun r d' => CreateOutcome start i req draws d' r) d := by
  unfold createCheckedBatch
  refine Outline.Wp.bind ?_
  have hcreate : start.Wp i (createBatch start.rt { req.normalized with webhookSecret := secret }
      expiresAt draws).run (fun r d' => start.BatchTx i req draws d r d') d := by
    unfold createBatch
    refine Go.wp_bind (Go.wp_begin hinv (fun d' hl => hl.failing.log) fun d' hd' => ?_)
    refine Go.wp_deferRollback ((createBatchTx_wp hcall haccepted hd').mono
      fun r d₁ ⟨hinv₁, hback, hr⟩ => ⟨hinv₁, hback, fun d₂ _ _ hq => ?_⟩)
    cases r with
    | ok id =>
      obtain ⟨e, b, cs, hcreated, hlog⟩ := hr
      exact ⟨e, b, cs, hcreated, hq.log.trans hlog⟩
    | error err => exact hq.log.trans hr
  refine hcreate.mono fun r d' hr => ?_
  cases r with
  | ok id =>
    obtain ⟨e, b, cs, hcreated, hlog⟩ := hr
    exact .ret (.created hcreated hlog hidle)
  | error err =>
    refine .ret (.refused (by simp [respondError]) fun e he => hidle e ?_)
    rwa [show d'.ownLog i = d.ownLog i from hr] at he

/-- `CreateBatch` keeps to its specification: the batch is there as a whole, or not at all. -/
theorem createBatchHandler_wp {req : CreateBatchRequest} {draws : List (Fin 31)}
    (hcall : start.calls i = .createBatch req draws) (hinv : start.Inv d)
    (hlog : d.ownLog i = []) :
    start.Wp i (createBatchHandler start.rt req draws)
      (fun r d' => CreateOutcome start i req draws d' r) d := by
  -- Before the batch is created, every way out is a refusal that has committed nothing.
  have hrefused : ∀ (status : ℕ) message details (d' : Database ι), status ≠ 200 →
      (∀ e ∈ d'.ownLog i, e.after = e.before) →
      CreateOutcome start i req draws d' (respondError status message details) :=
    fun status message details d' hs hidle => .refused hs hidle
  have hidle : ∀ d' : Database ι, d'.ownLog i = d.ownLog i →
      ∀ e ∈ d'.ownLog i, e.after = e.before := by
    intro d' hd' e he
    rw [hd', hlog] at he
    cases he
  unfold createBatchHandler
  simp only
  by_cases hvalid : validateCreateBatch start.rt req.normalized = []
  swap
  · rw [if_pos hvalid]
    exact .ret (hrefused _ _ _ d (by decide) (hidle d rfl))
  rw [if_neg (not_not_intro hvalid)]
  cases CreateBatchRequest.expiry start.rt req.normalized with
  | none => exact .ret (hrefused _ _ _ d (by decide) (hidle d rfl))
  | some expiresAt =>
    refine Outline.Wp.bind ?_
    -- The secret is drawn only if the request has a webhook without one.
    have hsecret : start.Wp i (chooseSecret req.normalized)
        (fun _ d' => start.Inv d' ∧ d'.ownLog i = d.ownLog i) d := by
      unfold chooseSecret
      split_ifs
      · exact wp_ask hinv fun _ _ d' _ ha hq => ⟨ha.inv, hq.log⟩
      · exact .ret ⟨hinv, rfl⟩
    refine hsecret.mono fun secret d₁ ⟨hinv₁, hlog₁⟩ => ?_
    -- The inventory is checked only for batches that assign credentials.
    split_ifs
    · refine Outline.Wp.bind ?_
      refine Go.wp_read hinv₁ (fun ctx c e he => (exec_countAvailableCredentialsByPlan he).1)
        (fun _ => trivial) fun r d₂ ha hlog₂ => ?_
      have hidle₂ : ∀ e ∈ d₂.ownLog i, e.after = e.before :=
        fun e he => (hlog₂ e he).elim (hidle d₁ hlog₁ e) id
      cases r with
      | error err => exact .ret (hrefused _ _ _ d₂ (by decide) hidle₂)
      | ok available =>
        simp only
        split_ifs
        · exact .ret (hrefused _ _ _ d₂ (by decide) hidle₂)
        · exact createCheckedBatch_wp hcall hvalid ha.inv hidle₂
    · exact createCheckedBatch_wp hcall hvalid hinv₁ (hidle d₁ hlog₁)

/-! ## Toggling -/

/-- `ToggleBatch` makes transitions: its one statement turns the state of the batch over. -/
theorem toggleBatch_wp {id : ℕ} (hcall : start.calls i = .toggleBatch id) (hinv : start.Inv d) :
    start.Wp i (toggleBatch id) (fun _ _ => True) d := by
  unfold toggleBatch
  refine Outline.Wp.bind (Go.wp_auto hinv (fun c e he => ?_) (fun _ => trivial)
    (fun _ _ => .ret trivial) fun c e d' _ _ => ?_)
  · rw [hcall]
    rcases exec_toggleBatchStatus he with rfl | ⟨b, -, rfl⟩
    · exact .idle rfl
    · exact .toggledBatch rfl
  · cases e.ans <;> exact .ret trivial

/-- `ToggleCode` makes transitions: its one statement turns the state of the code over. -/
theorem toggleCode_wp {id : ℕ} (hcall : start.calls i = .toggleCode id) (hinv : start.Inv d) :
    start.Wp i (toggleCode id) (fun _ _ => True) d := by
  unfold toggleCode
  refine Outline.Wp.bind (Go.wp_auto hinv (fun c e he => ?_) (fun _ => trivial)
    (fun _ _ => .ret trivial) fun c e d' _ _ => ?_)
  · rw [hcall]
    rcases exec_toggleCodeStatus he with rfl | ⟨x, -, rfl⟩
    · exact .idle rfl
    · exact .toggledCode rfl
  · cases e.ans <;> exact .ret trivial

/-! ## Sending a webhook again -/

omit [DecidableEq ι] in
/-- A call that is not a batch redemption commits nothing for one. -/
theorem commits_key {req : BatchRedeemRequest} {P : Prop} {call : Call}
    (hcall : start.calls i = call)
    (hne : ∀ req, call ≠ .batchRedeem req) (h : start.calls i = .batchRedeem req) : P :=
  absurd (hcall.symm.trans h) (hne req)

/-- The transaction of `ResendWebhook`: the redemption is prepared, and a new event is created for
it. -/
theorem resendTx_wp {id : ℕ} {event : String} {now : Time}
    (hcall : start.calls i = .resendWebhook id)
    (h : start.Held i .tx base now [] [] (fun _ => True) d) :
    start.Wp i (resendTx id event).run
      (fun _ d' => start.Inv d' ∧ start.RollsBack i .tx d') d := by
  have hlost : ∀ d', start.Lost i (some .tx) base d' → start.Inv d' ∧ start.RollsBack i .tx d' :=
    fun d' hl => ⟨hl.after.inv, Or.inr (Or.inl hl.failing.failed)⟩
  unfold resendTx
  refine Go.wp_bind (Go.wp_query h (fun _ => trivial) (fun d' hl => hlost d' hl) fun _ e he => ?_)
  rcases exec_prepareRedemptionWebhookResend he with rfl | ⟨r, hr, hsuccess, hfinished, hevent, rfl⟩
  · -- The redemption cannot be resent any more: the transaction has no locks and rolls back.
    refine ⟨fun _ => True, trivial, Outline.Steady.const, fun d₁ h₁ => ?_⟩
    dsimp only
    rw [if_pos (show (0 : ℕ) ≠ 1 by decide)]
    refine Go.wp_pure ⟨h₁.after.inv, Or.inr (Or.inr ⟨fun id _ ho => ?_, fun ht => by cases ht⟩)⟩
    have := (h₁.tx.locks _).mp ho
    simp at this
  · -- The row is locked from here on, so it is still the one that was read at the commit.
    refine ⟨fun d => d.tables.redemptions.get? id = some r ∧ ¬ d.tables.HasRedemptionEvent event,
      ⟨hr, hevent⟩, (steady_redemption (fun x => x = some r) (by simp)).and
        (steady_redemptionEvent (by simp)), fun d₁ h₁ => ?_⟩
    dsimp only
    rw [if_neg (show ¬ (1 : ℕ) ≠ 1 by decide)]
    refine Go.wp_bind (Go.wp_query h₁ (fun _ => trivial) (fun d' hl => hlost d' hl)
      fun _ e he => ?_)
    obtain ⟨-, houtbox, rfl⟩ := exec_createWebhookOutboxEvent he
    have hnew : d₁.tables.outbox.get? d₁.seq.outbox = none :=
      Table.get?_eq_none_iff.mpr fun o ho => (h₁.after.inv.seq.tables.outbox o ho).ne
    refine ⟨_, ⟨h₁.facts, hnew, houtbox⟩,
      ((steady_redemption (fun x => x = some r) (by simp)).and
        (steady_redemptionEvent (by simp))).and
        ((steady_outbox (fun o => o = none) (by simp [newOutboxEvent])).and
          (steady_outboxEvent (by simp))), fun d₂ h₂ => ?_⟩
    obtain ⟨⟨hrow, hred⟩, hnew₂, hout⟩ := h₂.facts
    -- At the commit, the changes are those of the transition of the call.
    refine Go.wp_bind (Go.wp_commit h₂ ⟨?_, fun id' _ ho => ?_, fun breq =>
      commits_key hcall (by simp)⟩ (fun d' hl => hlost d' hl) fun d' _ hclosed hd => ?_)
    · rw [hcall]
      exact .resent (o := newOutboxEvent d₁.seq.outbox event id now) hrow hsuccess hfinished hred
        hnew₂ hout rfl rfl
    · have := (h₂.tx.locks _).mp ho
      simp at this
    · exact Go.wp_pure ⟨hd.after.inv, Or.inl hclosed⟩

/-- The end of `ResendWebhook`: its transaction, and the reply about what came of it. -/
theorem resendChecked_wp {id : ℕ} {event : String} (hcall : start.calls i = .resendWebhook id)
    (hinv : start.Inv d) : start.Wp i (resendChecked id event) (fun _ _ => True) d := by
  unfold resendChecked
  refine Outline.Wp.bind ?_
  have hresend : start.Wp i (resend id event).run (fun _ _ => True) d := by
    unfold resend
    refine Go.wp_bind (Go.wp_begin hinv (fun _ _ => trivial) fun d' hd' => ?_)
    exact Go.wp_deferRollback ((resendTx_wp hcall hd').mono
      fun _ _ ⟨hinv', hback⟩ => ⟨hinv', hback, fun _ _ _ _ => trivial⟩)
  refine hresend.mono fun r d' _ => ?_
  rcases r with _ | (_ | _) <;> exact .ret trivial

/-- `ResendWebhook` makes transitions: at most the one of its transaction. -/
theorem resendWebhook_wp {id : ℕ} (hcall : start.calls i = .resendWebhook id) (hinv : start.Inv d) :
    start.Wp i (resendWebhook id) (fun _ _ => True) d := by
  unfold resendWebhook
  refine Outline.Wp.bind (Go.wp_read hinv
    (fun ctx c e he => by rw [exec_getRedemptionByID he]) (fun _ => trivial) fun r d₁ ha _ => ?_)
  rcases r with _ | (_ | redemption)
  · exact .ret trivial
  · exact .ret trivial
  dsimp only
  -- Each check that fails ends the handler before it has written anything.
  by_cases hsuccess : redemption.result ≠ .success
  · rw [if_pos hsuccess]
    exact .ret trivial
  rw [if_neg hsuccess]
  rcases redemption with ⟨_, _, batchId, _, _, _, _, _, _, webhookStatus, _, _, _, _, _, _⟩
  cases batchId with
  | none => exact .ret trivial
  | some batchId =>
    by_cases hnone : webhookStatus = .none
    · simp only [hnone, if_true]
      exact .ret trivial
    simp only [hnone, if_false]
    refine Outline.Wp.bind (Go.wp_read ha.inv
      (fun ctx c e he => by rw [exec_getBatchByID he]) (fun _ => trivial) fun r d₂ ha₂ _ => ?_)
    rcases r with _ | (_ | b)
    · exact .ret trivial
    · exact .ret trivial
    simp only
    split_ifs
    · exact .ret trivial
    · exact Outline.Wp.bind (wp_ask ha₂.inv fun _ event d₃ _ ha₃ _ =>
        resendChecked_wp hcall ha₃.inv)

/-! ## Credentials -/

/-- The credentials that the statements of an import have inserted, and their locks. -/
structure Start.Importing (start : Start ι) (cs : List Credential) (ls : List Lock) : Prop where
  imported : ∀ c ∈ cs, start.seq.credentials ≤ c.id ∧ c.used = false ∧ c.redemptionId = none
  locks : ∀ id, Lock.credential id ∈ ls → start.seq.credentials ≤ id

/-- The loop of an import: the rows so far are in the transaction, with a lock on each of them. -/
theorem createCredentials_wp {now : Time} {post : Except GoError Unit → Database ι → Prop}
    (hfail : ∀ err d', start.Lost i (some .tx) base d' → post (.error err) d')
    (hok : ∀ cs ls d', start.Held i .tx base now (cs.map .createCredential) ls
      (fun _ => start.Importing cs ls) d' → post (.ok ()) d') :
    ∀ {items : List CredentialItem} (cs ls) {d}, start.Held i .tx base now
      (cs.map .createCredential) ls (fun _ => start.Importing cs ls) d →
      start.Wp i (createCredentials items).run post d := by
  intro items
  induction items with
  -- The induction is on the items that are left; `cs` are the rows that were inserted so far.
  | nil => exact fun _ _ _ h => Go.wp_pure (hok _ _ _ h)
  | cons item items ih =>
    intro cs ls d h
    rw [createCredentials]
    refine Go.wp_bind (Go.wp_query h (fun _ => trivial) (fun d' hl => hfail _ d' hl)
      fun _ e he => ?_)
    obtain rfl := exec_createCredential he
    generalize hx : CreateCredentialParams.row item d.seq.credentials = x
    have hxid : x.id = d.seq.credentials := by rw [← hx]; rfl
    -- The number of the new row comes from the sequence, so it is none of those at the start.
    have hlater : start.seq.credentials ≤ x.id := hxid ▸ h.after.inv.seqLe.credentials
    have himporting : start.Importing (cs ++ [x]) (ls ++ [.credential d.seq.credentials]) := by
      refine ⟨fun c hc => ?_, fun id hid => ?_⟩
      · rcases List.mem_append.mp hc with hc | hc
        · exact h.facts.imported c hc
        · rw [List.mem_singleton.mp hc]
          exact ⟨hlater, by rw [← hx]; rfl, by rw [← hx]; rfl⟩
      · rcases List.mem_append.mp hid with hid | hid
        · exact h.facts.locks id hid
        · simp only [List.mem_singleton, Lock.credential.injEq] at hid
          rw [hid, ← hxid]
          exact hlater
    refine ⟨_, himporting, Outline.Steady.const, fun d' hd' => ?_⟩
    rw [show cs.map Write.createCredential ++ [.createCredential x] =
      (cs ++ [x]).map .createCredential by rw [List.map_append]; rfl] at hd'
    exact ih _ _ hd'

/-- `importCredentials` makes transitions: at most one, which adds all rows at once. -/
theorem importCredentials_wp {items : List CredentialItem}
    (hcall : start.calls i = .importCredentials items) (hinv : start.Inv d) :
    start.Wp i (importCredentials items).run (fun _ _ => True) d := by
  have hlost : ∀ d', start.Lost i (some .tx) d d' → start.Inv d' ∧ start.RollsBack i .tx d' :=
    fun d' hl => ⟨hl.after.inv, Or.inr (Or.inl hl.failing.failed)⟩
  unfold importCredentials
  refine Go.wp_bind (Go.wp_begin hinv (fun _ _ => trivial) fun d₁ h₁ => ?_)
  have htx : start.Wp i (importCredentialsTx items).run
      (fun _ d' => start.Inv d' ∧ start.RollsBack i .tx d') d₁ := by
    unfold importCredentialsTx
    refine Go.wp_bind (createCredentials_wp (fun _ d' hl => hlost d' hl) (fun cs ls d₂ h₂ => ?_)
      [] [] (h₁.weaken fun _ => ⟨by simp, by simp⟩))
    refine Go.wp_bind (Go.wp_commit h₂ ⟨?_, fun id hid ho => ?_, fun breq =>
      commits_key hcall (by simp)⟩ (fun d' hl => hlost d' hl) fun d' _ hclosed hd => ?_)
    · rw [hcall]
      refine .imported (fun c hc => ?_) rfl
      obtain ⟨hlater, hunused, hnobody⟩ := h₂.facts.imported c hc
      exact ⟨fun T hT => h₂.after.inv.fresh i .tx _ h₂.tx.tx c (List.mem_map_of_mem hc) T hT,
        hlater, hunused, hnobody⟩
    · have := h₂.facts.locks id ((h₂.tx.locks _).mp ho)
      omega
    · exact Go.wp_pure ⟨hd.after.inv, Or.inl hclosed⟩
  exact Go.wp_deferRollback (htx.mono
    fun _ _ ⟨hinv', hback⟩ => ⟨hinv', hback, fun _ _ _ _ => trivial⟩)

/-- `DeleteCredential` makes transitions: its one statement deletes an unused credential. -/
theorem deleteCredential_wp {id : ℕ} (hcall : start.calls i = .deleteCredential id)
    (hinv : start.Inv d) : start.Wp i (deleteCredential id) (fun _ _ => True) d := by
  unfold deleteCredential
  refine Outline.Wp.bind (Go.wp_auto hinv (fun c e he => ?_) (fun _ => trivial)
    (fun _ _ => .ret trivial) fun c e d' _ _ => .ret trivial)
  rw [hcall]
  rcases exec_deleteCredential he with rfl | rfl
  · exact .idle rfl
  · refine .deleted [id] (fun id' hid' => ?_) rfl
    rw [List.mem_singleton.mp hid']
    rfl

/-- The credentials that a deletion has locked are those that it has deleted. -/
structure Deleting (ids deleted : List ℕ) (ls : List Lock) : Prop where
  requested : deleted ⊆ ids
  locks : ∀ id, Lock.credential id ∈ ls → id ∈ deleted

/-- The statement that deletes several credentials, which locks and deletes them one after another.
-/
theorem deleteCredentialsByIDs_wp {now : Time} {all ids : List ℕ} :
    ∀ (deleted : List ℕ) (ls : List Lock) {d : Database ι}
      {post : Except GoError ℕ → Database ι → Prop},
      (∀ err d', start.Lost i (some .tx) base d' → post (.error err) d') →
      (∀ n deleted ls d', start.Held i .tx base now (deleted.map .deleteCredential) ls
        (fun _ => Deleting all deleted ls) d' → post (.ok n) d') →
      ids ⊆ all → start.Held i .tx base now (deleted.map .deleteCredential) ls
        (fun _ => Deleting all deleted ls) d →
      start.Wp i (deleteCredentialsByIDs ids).run post d := by
  induction ids with
  -- The induction is on the numbers that are left; `deleted` are the rows that are gone so far.
  | nil => exact fun _ _ _ _ _ hok _ h => Go.wp_pure (hok _ _ _ _ h)
  | cons id ids ih =>
    intro deleted ls d post hfail hok hids h
    have hids' : ids ⊆ all := fun x hx => hids (by simp [hx])
    have hid : id ∈ all := hids (by simp)
    rw [deleteCredentialsByIDs]
    refine Go.wp_bind (Go.wp_query h (fun _ => trivial) (fun d' hl => hfail _ d' hl)
      fun _ e he => ?_)
    -- A number without an unused row is passed over.
    rcases exec_deleteCredential he with rfl | rfl
    · refine ⟨_, h.facts, Outline.Steady.const, fun d' hd' => ?_⟩
      rw [List.append_nil, List.append_nil] at hd'
      exact Go.wp_bind (ih _ _ (fun err d'' hl => hfail err d'' hl)
        (fun n deleted ls d'' hd'' => Go.wp_pure (hok _ deleted ls d'' hd'')) hids' hd')
    · have hdel : Deleting all (deleted ++ [id]) (ls ++ [.credential id]) := by
        refine ⟨fun x hx => ?_, fun x hx => ?_⟩
        · rcases List.mem_append.mp hx with hx | hx
          · exact h.facts.requested hx
          · exact List.mem_singleton.mp hx ▸ hid
        · rcases List.mem_append.mp hx with hx | hx
          · exact List.mem_append_left _ (h.facts.locks x hx)
          · simp only [List.mem_singleton, Lock.credential.injEq] at hx
            simp [hx]
      refine ⟨_, hdel, Outline.Steady.const, fun d' hd' => ?_⟩
      rw [show deleted.map Write.deleteCredential ++ [.deleteCredential id] =
        (deleted ++ [id]).map .deleteCredential by rw [List.map_append]; rfl] at hd'
      exact Go.wp_bind (ih _ _ (fun err d'' hl => hfail err d'' hl)
        (fun n deleted ls d'' hd'' => Go.wp_pure (hok _ deleted ls d'' hd'')) hids' hd')

omit [DecidableEq ι] in
/-- A credential that was deleted has no row in the tables afterwards. -/
theorem get?_deleted {ids : List ℕ} {id : ℕ} (h : id ∈ ids) (T : Tables) :
    (postgres.applyAll T (ids.map .deleteCredential)).credentials.get? id = none := by
  rw [Option.eq_none_iff_forall_ne_some]
  induction ids generalizing T with
  | nil => cases h
  | cons id' ids ih =>
    intro c hc
    rcases List.mem_cons.mp h with rfl | h
    · have hc' : (T.apply (.deleteCredential id)).credentials.get? id = some c :=
        get?_of_get?_deleted (T := T.apply (.deleteCredential id)) hc
      have hgone : (T.apply (.deleteCredential id)).credentials.get? id = none :=
        Table.get?_erase_self
      rw [hgone] at hc'
      cases hc'
    · exact ih h _ c hc

/-- `BatchDeleteCredentials` makes transitions: at most one, which deletes unused credentials. -/
theorem batchDeleteCredentials_wp {ids : List ℕ}
    (hcall : start.calls i = .batchDeleteCredentials ids) (hinv : start.Inv d) :
    start.Wp i (batchDeleteCredentials ids) (fun _ _ => True) d := by
  have hlost : ∀ d', start.Lost i (some .tx) d d' → start.Inv d' ∧ start.RollsBack i .tx d' :=
    fun d' hl => ⟨hl.after.inv, Or.inr (Or.inl hl.failing.failed)⟩
  unfold batchDeleteCredentials
  split_ifs
  · exact .ret trivial
  refine Outline.Wp.bind ?_
  have hdelete : start.Wp i (deleteCredentials ids).run (fun _ _ => True) d := by
    unfold deleteCredentials
    refine Go.wp_bind (Go.wp_begin hinv (fun _ _ => trivial) fun d₁ h₁ => ?_)
    have htx : start.Wp i (deleteCredentialsTx ids).run
        (fun _ d' => start.Inv d' ∧ start.RollsBack i .tx d') d₁ := by
      unfold deleteCredentialsTx
      refine Go.wp_bind (deleteCredentialsByIDs_wp [] []
        (fun _ d' hl => hlost d' hl) (fun n deleted ls d₂ h₂ => ?_) (fun _ h => h)
        (h₁.weaken fun _ => ⟨by simp, by simp⟩))
      refine Go.wp_bind (Go.wp_commit h₂ ⟨?_, fun id hid ho r hr => ?_, fun breq =>
        commits_key hcall (by simp)⟩ (fun d' hl => hlost d' hl) fun d' _ hclosed hd => ?_)
      · rw [hcall]
        exact .deleted deleted (fun id hid => h₂.facts.requested hid) rfl
      · -- No row of the list is left, so none of its locks has anything to lose.
        rw [get?_deleted (h₂.facts.locks id ((h₂.tx.locks _).mp ho))] at hr
        cases hr
      · exact Go.wp_pure ⟨hd.after.inv, Or.inl hclosed⟩
    exact Go.wp_deferRollback (htx.mono
      fun _ _ ⟨hinv', hback⟩ => ⟨hinv', hback, fun _ _ _ _ => trivial⟩)
  refine hdelete.mono fun r d' _ => ?_
  cases r <;> exact .ret trivial

end CdkSystem
