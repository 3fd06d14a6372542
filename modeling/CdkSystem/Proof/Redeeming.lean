import CdkSystem.Proof.Claiming

/-!
# `Redeem` keeps to its specification

One theorem for each function that `Redeem` is made of, from the end of the transaction to its
beginning: what is known when the function is called, and what it leaves. The locks carry the facts:
the code's row, the credential and the key's row stay as they were read until the commit, and the
new rows stay new.

A function's theorem is used by its caller through `Wp.bind`, so no proof unfolds more than one
function.
-/

namespace CdkSystem

open RowLock Relational

/-! ## The specification over time -/

section Mono

variable {past past' : Tables → Prop} {T : Tables} {clock time time' : Time} {text : String}
  {codeID batchID : Option ℕ} {resp : RedeemResponse} {c : Code} {b : Batch}

/-- A code that was found stays found. -/
theorem FoundCode.mono (h : FoundCode past T text c b) (hp : ∀ T, past T → past' T) :
    FoundCode past' T text c b :=
  ⟨h.row, h.text, h.batch.imp fun T' hT' => ⟨hp T' hT'.1, hT'.2⟩⟩

/-- A reason for a business failure stays one. -/
theorem Refusal.mono (h : Refusal clock time past T text codeID batchID resp)
    (hp : ∀ T, past T → past' T) (ht : time ≤ time') :
    Refusal clock time' past' T text codeID batchID resp := by
  cases h with
  | invalidCode hpast hnone => exact .invalidCode (hp _ hpast) hnone
  | state found hnow hcheck => exact .state (found.mono hp) ⟨hnow.1, hnow.2.trans ht⟩ hcheck
  | noCredential found hnow hcheck hassign =>
    exact .noCredential (found.mono hp) ⟨hnow.1, hnow.2.trans ht⟩ hcheck hassign

/-- What a redemption found in the past stays in the past. -/
theorem Redeemed.mono {ι : Type} {e : Commit ι Tables} {rt : Runtime} {req : RedeemRequest}
    (h : Redeemed rt clock past req e resp) (hp : ∀ T, past T → past' T) :
    Redeemed rt clock past' req e resp := by
  cases h with
  | refused reason known new hcreated free after =>
    exact .refused (reason.mono hp le_rfl) known new hcreated free after
  | succeeded inOrder response free after =>
    exact .succeeded { inOrder with found := inOrder.found.mono hp } response free after

/-- Successes are successes: a business failure has another result. -/
theorem Refusal.result_ne (h : Refusal clock time past T text codeID batchID resp) :
    resp.result ≠ .known .success ∧ resp.ok = false := by
  cases h with
  | invalidCode hpast hnone => exact ⟨by decide, rfl⟩
  | noCredential found hnow hcheck hassign => exact ⟨by decide, rfl⟩
  | @state c b now resp found hnow hcheck =>
    unfold checkCodeState at hcheck
    split_ifs at hcheck
    all_goals
      cases hcheck
      exact ⟨by decide, rfl⟩

/-- The response to a business failure has one of the results. -/
theorem Refusal.known (h : Refusal clock time past T text codeID batchID resp) :
    ∃ result, resp.result = .known result := by
  cases h with
  | invalidCode hpast hnone => exact ⟨_, rfl⟩
  | noCredential found hnow hcheck hassign => exact ⟨_, rfl⟩
  | @state c b now resp found hnow hcheck =>
    unfold checkCodeState at hcheck
    split_ifs at hcheck
    all_goals
      cases hcheck
      exact ⟨_, rfl⟩

end Mono

variable {ι : Type} [DecidableEq ι] {start : Start ι} {i : ι} {d base : Database ι}
  {now : Time} {ws wk : List Write} {ls : List Lock} {F : Database ι → Prop}

/-- A code that was found under its lock stays found. -/
theorem steady_found {text : String} {c : Code} {b : Batch} (h : Lock.code c.id ∈ ls) :
    start.Steady ls fun d => FoundCode (Past d.log d.tables) d.tables text c b := by
  intro d d' hsame hle _ _ hf
  have hrow : d'.tables.codes.get? c.id = d.tables.codes.get? c.id := hsame _ h
  exact ⟨hrow.trans hf.row, hf.text, (hf.mono hle.past).batch⟩

/-- A reason for a business failure stays one under the code's lock. -/
theorem steady_refusal {text : String} {codeID batchID : Option ℕ} {resp : RedeemResponse}
    (h : ∀ id, codeID = some id → Lock.code id ∈ ls) :
    start.Steady ls fun d =>
      Refusal start.clock d.clock (Past d.log d.tables) d.tables text codeID batchID resp := by
  intro d d' hsame hle _ _ hr
  have hfound : ∀ c b, codeID = some c.id → FoundCode (Past d.log d.tables) d.tables text c b →
      FoundCode (Past d'.log d'.tables) d'.tables text c b := by
    intro c b hid hf
    have hrow : d'.tables.codes.get? c.id = d.tables.codes.get? c.id := hsame _ (h _ hid)
    exact ⟨hrow.trans hf.row, hf.text, (hf.mono hle.past).batch⟩
  cases hr with
  | invalidCode hpast hnone => exact .invalidCode (hle.past _ hpast) hnone
  | state found hnow hcheck =>
    exact .state (hfound _ _ rfl found) ⟨hnow.1, hnow.2.trans hle.clock⟩ hcheck
  | noCredential found hnow hcheck hassign =>
    exact .noCredential (hfound _ _ rfl found) ⟨hnow.1, hnow.2.trans hle.clock⟩ hcheck hassign

/-- A code's state is never the lack of a credential. -/
theorem checkCodeState_result {t : Time} {c : Code} {b : Batch} {resp : RedeemResponse}
    (h : checkCodeState t c b = some resp) : resp.result ≠ .known .credentialUnavailable := by
  unfold checkCodeState at h
  split_ifs at h
  all_goals
    cases h
    decide

omit [DecidableEq ι] in
/-- Exhausted credentials stay exhausted. -/
theorem Start.Exhausted.mono {text : String} {d' : Database ι} (h : start.Exhausted text d)
    (hle : start.Le d d') : start.Exhausted text d' := by
  rcases h with ⟨j, hj⟩ | ⟨T, c, b, t, hT, hfound, hlo, hhi, htaken⟩
  · exact Or.inl ⟨j, hle.failed j hj⟩
  · by_cases hf : ∃ j, d'.failed j = true
    · exact Or.inl hf
    · refine Or.inr ⟨T, c, b, t, hle.past T hT, hfound.mono hle.past, hlo, hhi.trans hle.clock,
        fun r hr ha => ?_⟩
      exact (hle.taken r.id (start.below.credentials r hr) (htaken r hr ha)).resolve_right hf

/-- Exhausted credentials are a steady fact. -/
theorem steady_exhausted {text : String} : start.Steady ls fun d => start.Exhausted text d :=
  fun _ _ _ hle _ _ h => h.mono hle

/-! ## The end of the transaction -/

/-- Call `i` may redeem for the request `req`, whose user is trimmed, from the state `base`: its
commit is a transition of the call, and the key of a batch request is held. -/
structure Start.MayRedeem (start : Start ι) (i : ι) (req : RedeemRequest) (base : Database ι) :
    Prop where
  transition : ∀ (log : List (Commit ι Tables)) e resp,
    Redeemed start.rt start.clock (Past log e.before) req e resp →
      Transition start log e (start.calls i)
  key : ∀ breq, start.calls i = .batchRedeem breq → breq.idempotencyKey ≠ "" →
    base.owner (.key breq.idempotencyKey) = some (i, .idempotencyTx)

/-- What the part of `Redeem` in the transaction leaves. -/
inductive TxOutcome (start : Start ι) (i : ι) (req : RedeemRequest) (base d : Database ι) :
    Except GoError RedeemResponse → Prop
  /-- A redemption was committed. -/
  | done {e resp} (h : start.Done i (some .tx) base e d) (closed : d.txs i .tx = none)
      (he : Redeemed start.rt start.clock (Past d.log d.tables) req e resp)
      (full : resp.result = .known .credentialUnavailable →
        start.Exhausted (normalizeCode req.code) d) :
      TxOutcome start i req base d (.ok resp)
  /-- The key had been used before. -/
  | answered {r now ls} (h : start.Held i .tx base now [] ls (fun _ => True) d)
      (locks : ∀ id, .credential id ∉ ls)
      (ha : Answered RedeemResponse.unmarshal req.idempotencyKey (hashRequest start.rt req)
        d.tables r) : TxOutcome start i req base d r
  /-- An operation failed. -/
  | lost {err} (h : start.Lost i (some .tx) base d) : TxOutcome start i req base d (.error err)

/-- A redemption that was prepared is committed. -/
theorem commit_wp {err : GoError} {req : RedeemRequest} {resp : RedeemResponse}
    (hmay : start.MayRedeem i req base) (h : start.Held i .tx base now ws ls F d)
    (he : Redeemed start.rt start.clock (Past d.log d.tables) req
      ⟨i, d.clock, d.tables, postgres.applyAll d.tables ws⟩ resp)
    (hcred : ∀ id, .credential id ∈ ls →
      ∀ r, (postgres.applyAll d.tables ws).credentials.get? id = some r → r.used = true)
    (hfull : resp.result = .known .credentialUnavailable →
      start.Exhausted (normalizeCode req.code) d) :
    start.Wp i (do Go.commit err .tx; return resp : Go RedeemResponse).run
      (fun r d' => TxOutcome start i req base d' r) d := by
  refine Go.wp_bind (Go.wp_commit h ⟨hmay.transition _ _ _ he, fun id _ ho => ?_, ?_⟩
    (fun d' hl => .lost hl) fun d' hle hclosed hd => ?_)
  · exact hcred id ((h.tx.locks _).mp ho)
  · intro breq hcall hkey _
    exact ((h.after.frame .idempotencyTx (by simp)).owner _).mpr (hmay.key breq hcall hkey)
  · exact Go.wp_pure (.done hd hclosed (he.mono hle.past) fun hr => (hfull hr).mono hle)

/-- The response of the request is stored in the row of its key, if it has one. -/
theorem storeIdempotencyResponse_wp {req : RedeemRequest} {resp : RedeemResponse}
    {post : Except GoError Unit → Database ι → Prop}
    (h : start.Held i .tx base now (wk ++ ws) ls F d) (hF : start.Steady ls F)
    (hclaimed : F d → Claimed req.idempotencyKey (hashRequest start.rt req) wk d.tables)
    (hws : ∀ T : Tables, (postgres.applyAll T ws).keys = T.keys)
    (hfail : ∀ err d', start.Lost i (some .tx) base d' → post (.error err) d')
    (hok : ∀ ls' d', (∀ id, .credential id ∈ ls' → .credential id ∈ ls) →
      start.Held i .tx base now (wk ++ ws ++ closeKey req.idempotencyKey resp.marshal) ls' F d' →
      post (.ok ()) d') :
    start.Wp i (storeIdempotencyResponse req.idempotencyKey resp).run post d := by
  unfold storeIdempotencyResponse
  by_cases hk : req.idempotencyKey = ""
  · rw [if_pos hk]
    refine Go.wp_pure (hok ls d (fun _ h => h) ?_)
    rw [closeKey, if_pos hk, List.append_nil]
    exact h
  · rw [if_neg hk]
    exact store_wp _ hk h hF hclaimed hws (fun d' hl => hfail _ d' hl)
      fun d' hd' => hok _ d' (by simp) hd'

/-- What is known when a business failure is recorded. -/
structure Start.ToRefuse (start : Start ι) (req : RedeemRequest) (wk : List Write) (now : Time)
    (codeID batchID : Option ℕ) (resp : RedeemResponse) (d : Database ι) : Prop where
  claimed : Claimed req.idempotencyKey (hashRequest start.rt req) wk d.tables
  begun : start.clock ≤ now ∧ now ≤ d.clock
  reason : Refusal start.clock d.clock (Past d.log d.tables) d.tables (normalizeCode req.code)
    codeID batchID resp
  full : resp.result = .known .credentialUnavailable → start.Exhausted (normalizeCode req.code) d

/-- It is steady under the locks of the key and the code. -/
theorem steady_toRefuse {req : RedeemRequest} {codeID batchID : Option ℕ} {resp : RedeemResponse}
    (hkey : req.idempotencyKey ≠ "" → Lock.key req.idempotencyKey ∈ ls)
    (hcode : ∀ id, codeID = some id → Lock.code id ∈ ls) :
    start.Steady ls (start.ToRefuse req wk now codeID batchID resp) :=
  fun d d' hsame hle hi hi' h =>
    ⟨steady_claimed hkey d d' hsame hle hi hi' h.claimed,
      steady_clock d d' hsame hle hi hi' h.begun,
      steady_refusal hcode d d' hsame hle hi hi' h.reason, fun hr => (h.full hr).mono hle⟩

/-- A new row's `id` is not in the table. -/
theorem redemptions_get?_seq (hinv : start.Inv d) :
    d.tables.redemptions.get? d.seq.redemptions = none := by
  refine Table.get?_eq_none_iff.mpr fun r hr => ?_
  exact (hinv.seq.tables.redemptions r hr).ne

/-- A business failure is recorded and committed. -/
theorem refuse_wp {req : RedeemRequest} {codeID batchID : Option ℕ} {resp : RedeemResponse}
    {err : GoError} (hmay : start.MayRedeem i req base)
    (hkey : req.idempotencyKey ≠ "" → Lock.key req.idempotencyKey ∈ ls)
    (hcode : ∀ id, codeID = some id → Lock.code id ∈ ls) (hcred : ∀ id, .credential id ∉ ls)
    (h : start.Held i .tx base now wk ls (start.ToRefuse req wk now codeID batchID resp) d) :
    start.Wp i (refuse start.rt req (normalizeCode req.code) (normalizeUserKey start.rt req.userID)
      codeID batchID resp err).run (fun r d' => TxOutcome start i req base d' r) d := by
  obtain ⟨result, hresult⟩ := h.facts.reason.known
  unfold refuse recordFailure
  rw [hresult]
  refine Go.wp_bind (Go.wp_bind (Go.wp_query h (fun _ => trivial) (fun d' hl => .lost hl)
    fun c e he => ?_))
  obtain ⟨-, -, -, rfl⟩ := exec_createRedemption he
  -- The failure's row is new, and its lock keeps it so.
  refine ⟨fun d' => start.ToRefuse req wk now codeID batchID resp d' ∧
    d'.tables.redemptions.get? d.seq.redemptions = none,
    ⟨h.facts, redemptions_get?_seq h.after.inv⟩,
    (steady_toRefuse (fun hk => by simp [hkey hk]) fun id hid => by simp [hcode id hid]).and
      (steady_redemption (fun r => r = none) (by simp [CreateRedemptionParams.row])),
    fun d' hd' => ?_⟩
  refine storeIdempotencyResponse_wp hd' ?_ (fun hf => hf.1.claimed) (fun _ => rfl)
    (fun _ d'' hl => .lost hl) fun ls' d'' hls hd'' => ?_
  · exact (steady_toRefuse (fun hk => by simp [hkey hk]) fun id hid => by simp [hcode id hid]).and
      (steady_redemption (fun r => r = none) (by simp [CreateRedemptionParams.row]))
  · obtain ⟨hready, hnew⟩ := hd''.facts
    refine commit_wp hmay hd''
      (.refused hready.reason hresult hnew hready.begun hready.claimed.free ?_)
      (fun id hid => ?_) hready.full
    · rw [hready.claimed.writes]
      rfl
    · have := hls id hid
      simp [hcred id] at this

/-! ## The changes of a success -/

/-- The outbox event of a success is created if the batch has a webhook. -/
theorem createOutboxEvent_wp {b : Batch} {event : String} {r : ℕ}
    {post : Except GoError Unit → Database ι → Prop}
    (h : start.Held i .tx base now ws ls F d) (hF : start.Steady ls F)
    (hws : ∀ T : Tables, (postgres.applyAll T ws).outbox = T.outbox)
    (hfail : ∀ err d', start.Lost i (some .tx) base d' → post (.error err) d')
    (hok : ∀ o ls' d', ls ⊆ ls' → (∀ id, .credential id ∈ ls' → .credential id ∈ ls) →
      start.Steady ls' (fun d => F d ∧ (b.webhookUrl ≠ "" → d.tables.outbox.get? o.id = none ∧
        ¬ d.tables.HasOutboxEvent event)) →
      o = newOutboxEvent o.id event r now →
      start.Held i .tx base now
        (ws ++ if b.webhookUrl = "" then [] else [.createWebhookOutboxEvent o]) ls'
        (fun d => F d ∧ (b.webhookUrl ≠ "" → d.tables.outbox.get? o.id = none ∧
          ¬ d.tables.HasOutboxEvent event)) d' →
      post (.ok ()) d') :
    start.Wp i (createOutboxEvent (b.webhookUrl ≠ "") event r).run post d := by
  unfold createOutboxEvent
  -- Without a webhook there is no event, and nothing new to know.
  by_cases hurl : b.webhookUrl = ""
  · rw [if_neg (by simp [hurl])]
    refine Go.wp_pure (hok (newOutboxEvent 0 event r now) ls d (fun _ h => h) (fun _ h => h) ?_ rfl
      ?_)
    · exact fun d d' hsame hle hi hi' hf =>
        ⟨hF d d' hsame hle hi hi' hf.1, fun hne => absurd hurl hne⟩
    · rw [if_pos hurl, List.append_nil]
      exact h.weaken fun hf => ⟨hf, fun hne => absurd hurl hne⟩
  · rw [if_pos (by simp [hurl])]
    refine Go.wp_bind (Go.wp_query h (fun _ => trivial) (fun d' hl => hfail _ d' hl)
      fun c e he => ?_)
    obtain ⟨-, hnew, rfl⟩ := exec_createWebhookOutboxEvent he
    rw [Tables.HasOutboxEvent, hws] at hnew
    -- The next number of the sequence is new, and the locks on it and on the event keep it so.
    have hseq : d.tables.outbox.get? d.seq.outbox = none :=
      Table.get?_eq_none_iff.mpr fun o ho => (h.after.inv.seq.tables.outbox o ho).ne
    have hsteady : start.Steady (ls ++ [.outbox d.seq.outbox, .outboxEvent event]) fun d' =>
        F d' ∧ (b.webhookUrl ≠ "" → d'.tables.outbox.get? d.seq.outbox = none ∧
          ¬ d'.tables.HasOutboxEvent event) := by
      refine (hF.append _).and fun d₁ d₂ hsame hle hi hi' hf _ => ⟨?_, ?_⟩
      · exact steady_outbox (fun o => o = none) (by simp) d₁ d₂ hsame hle hi hi' (hf hurl).1
      · exact steady_outboxEvent (by simp) d₁ d₂ hsame hle hi hi' (hf hurl).2
    refine ⟨_, ⟨h.facts, fun _ => ⟨hseq, hnew⟩⟩, hsteady, fun d' hd' => ?_⟩
    refine Go.wp_pure (hok (newOutboxEvent d.seq.outbox event r now) _ d'
      (List.subset_append_left _ _) (by simp) hsteady rfl ?_)
    rw [if_neg hurl]
    exact hd'

/-- The credential of a success, which is locked, is marked used. -/
theorem markCredentialUsed_wp {credential : Option Credential} {r : ℕ}
    {post : Except GoError Unit → Database ι → Prop}
    (h : start.Held i .tx base now ws ls F d) (hF : start.Steady ls F)
    (hws : ∀ T : Tables, (postgres.applyAll T ws).credentials = T.credentials)
    (hcred : ∀ x, credential = some x → d.tables.credentials.get? x.id = some x)
    (hlocks : ∀ id, .credential id ∈ ls → ∃ x, credential = some x ∧ x.id = id)
    (hfail : ∀ err d', start.Lost i (some .tx) base d' → post (.error err) d')
    (hok : ∀ ls' d', ls ⊆ ls' →
      (∀ id, .credential id ∈ ls' → ∃ x, credential = some x ∧ x.id = id) →
      start.Held i .tx base now
        (ws ++ match (motive := Option Credential → List Write) credential with
          | none => []
          | some x => [.markCredentialUsed x.id r]) ls' F d' →
      post (.ok ()) d') :
    start.Wp i (markCredentialUsed credential r).run post d := by
  unfold markCredentialUsed
  cases credential with
  | none => exact Go.wp_pure (hok ls d (fun _ h => h) hlocks (by simpa using h))
  | some x =>
    refine Go.wp_bind (Go.wp_query h (fun _ => trivial) (fun d' hl => hfail _ d' hl)
      fun c e he => ?_)
    have hrow : (postgres.applyAll d.tables ws).credentials.get? x.id = some x := by
      rw [hws]
      exact hcred x rfl
    rcases exec_markCredentialUsed he with ⟨hnone, -⟩ | ⟨y, hy, rfl⟩
    · -- The credential is still there, since its row is locked.
      rw [show (postgres.applyAll d.tables ws).credentials.get? x.id = none from hnone] at hrow
      cases hrow
    · refine ⟨F, h.facts, hF.append _, fun d' hd' => Go.wp_pure (hok _ d'
        (List.subset_append_left _ _) (fun id hid => ?_) hd')⟩
      rcases List.mem_append.mp hid with hid | hid
      · exact hlocks id hid
      · simp only [List.mem_singleton, Lock.credential.injEq] at hid
        exact ⟨x, rfl, hid.symm⟩

/-- What is known when the changes of a success begin: the code allows it, and its credential is
there. -/
structure Start.ToSucceed (start : Start ι) (req : RedeemRequest) (wk : List Write) (now : Time)
    (c : Code) (b : Batch) (credential : Option Credential) (d : Database ι) : Prop where
  claimed : Claimed req.idempotencyKey (hashRequest start.rt req) wk d.tables
  begun : start.clock ≤ now ∧ now ≤ d.clock
  found : FoundCode (Past d.log d.tables) d.tables (normalizeCode req.code) c b
  checked : ∃ t, start.clock ≤ t ∧ t ≤ d.clock ∧ checkCodeState t c b = none
  none : credential = none → b.assignCredential = false
  some : ∀ x, credential = some x → b.assignCredential = true ∧
    d.tables.credentials.get? x.id = some x ∧ x.available now b.credentialPlanType = true

/-- It is steady under the locks of the key, the code and the credential. -/
theorem steady_toSucceed {req : RedeemRequest} {c : Code} {b : Batch}
    {credential : Option Credential}
    (hkey : req.idempotencyKey ≠ "" → Lock.key req.idempotencyKey ∈ ls)
    (hcode : Lock.code c.id ∈ ls)
    (hcred : ∀ x, credential = some x → Lock.credential x.id ∈ ls) :
    start.Steady ls (start.ToSucceed req wk now c b credential) := by
  intro d d' hsame hle hi hi' h
  refine ⟨steady_claimed hkey d d' hsame hle hi hi' h.claimed,
    steady_clock d d' hsame hle hi hi' h.begun, steady_found hcode d d' hsame hle hi hi' h.found,
    ?_, h.none, fun x hx => ?_⟩
  · obtain ⟨t, hlo, hhi, hc⟩ := h.checked
    exact ⟨t, hlo, hhi.trans hle.clock, hc⟩
  · obtain ⟨ha, hrow, havail⟩ := h.some x hx
    exact ⟨ha, steady_credential (fun r => r = Option.some x)
      (hcred x hx) d d' hsame hle hi hi' hrow, havail⟩

/-- A code that passes the checks is not disabled and has a use left. -/
theorem checkCodeState_eq_none {t : Time} {c : Code} {b : Batch} (h : checkCodeState t c b = none) :
    c.status = .unused ∧ c.useCount < b.maxUsesPerCode := by
  unfold checkCodeState at h
  split_ifs at h with h1 h2 h3 h4
  exact ⟨by cases hs : c.status <;> simp_all, by omega⟩

/-- The event of a success: random if the batch has a webhook, and none otherwise. -/
theorem successEventID_wp {b : Batch} {post : Except GoError String → Database ι → Prop}
    (h : start.Held i .tx base now ws ls F d) (hF : start.Steady ls F)
    (hok : ∀ event d', (b.webhookUrl = "" → event = "") →
      (b.webhookUrl ≠ "" → isHex 16 event = true) → start.Held i .tx base now ws ls F d' →
      post (.ok event) d') :
    start.Wp i (successEventID b).run post d := by
  unfold successEventID
  split_ifs with hurl
  · refine Go.wp_env h hF fun c event d' ha _ hd' => hok event d' (fun hu => absurd hu hurl)
      (fun _ => ?_) hd'
    simp only [Env.answer] at ha
    split_ifs at ha with hhex
    cases ha
    exact hhex
  · exact Go.wp_pure (hok "" d (fun _ => rfl) (fun hu => absurd hu hurl) h)

/-- A text of hexadecimal digits is not empty. -/
theorem ne_empty_of_isHex {n : ℕ} {s : String} (hn : n ≠ 0) (h : isHex n s = true) : s ≠ "" := by
  rintro rfl
  simp [isHex] at h
  omega

/-- A success is recorded and committed. -/
theorem succeed_wp {req : RedeemRequest} {c : Code} {b : Batch} {credential : Option Credential}
    (hmay : start.MayRedeem i req base)
    (hkey : req.idempotencyKey ≠ "" → Lock.key req.idempotencyKey ∈ ls)
    (hcode : Lock.code c.id ∈ ls)
    (hcred : ∀ x, credential = some x → Lock.credential x.id ∈ ls)
    (hlocks : ∀ id, .credential id ∈ ls → ∃ x, credential = some x ∧ x.id = id)
    (h : start.Held i .tx base now wk ls (start.ToSucceed req wk now c b credential) d) :
    start.Wp i (succeed start.rt req (normalizeCode req.code) (normalizeUserKey start.rt req.userID)
      c b credential).run (fun r d' => TxOutcome start i req base d' r) d := by
  have hsteady : ∀ more, start.Steady (ls ++ more) (start.ToSucceed req wk now c b credential) :=
    fun more => (steady_toSucceed hkey hcode hcred).append more
  have hview : ∀ d, start.ToSucceed req wk now c b credential d →
      (postgres.applyAll d.tables wk).codes.get? c.id = some c := by
    intro d hf
    rw [hf.claimed.same Tables.codes (fun _ _ => rfl)]
    exact hf.found.row
  obtain ⟨t, -, -, hcheck⟩ := h.facts.checked
  have hcountable := checkCodeState_eq_none hcheck
  unfold succeed
  -- The use is counted: the locked code still passes the checks.
  refine Go.wp_bind (Go.wp_query h (fun K tx htx => ?_) (fun d' hl => .lost hl) fun _ e he => ?_)
  · rw [h.tx.tx, Option.some.injEq] at htx
    exact ⟨c, htx ▸ hview d h.facts, hcountable⟩
  rcases exec_incrementCodeUseCount he with ⟨-, hnot⟩ | ⟨x, -, -, -, rfl⟩
  · exact absurd hcountable (hnot c (hview d h.facts))
  refine ⟨_, h.facts, hsteady _, fun d₁ h₁ => ?_⟩
  -- The time of the response and the event.
  refine Go.wp_bind (Go.wp_env h₁ (hsteady _) fun _ redeemedAt d₂ _ _ h₂ => ?_)
  refine Go.wp_bind (successEventID_wp h₂ (hsteady _) fun event d₃ hnone hhex h₃ => ?_)
  -- The redemption's row and its event are new.
  refine Go.wp_bind (Go.wp_query h₃ (fun _ => trivial) (fun d' hl => .lost hl) fun _ e he => ?_)
  obtain ⟨-, -, hevent, rfl⟩ := exec_createRedemption he
  have hnew := redemptions_get?_seq h₃.after.inv
  have hevent' : b.webhookUrl ≠ "" → ¬ d₃.tables.HasRedemptionEvent event := by
    intro hurl
    have := hevent event (stringPtr_eq_some.mpr ⟨rfl, ne_empty_of_isHex (by decide) (hhex hurl)⟩)
    rw [Tables.HasRedemptionEvent, Dbms.applyAll_append] at this
    rw [Tables.HasRedemptionEvent, ← h₃.facts.claimed.same Tables.redemptions (fun _ _ => rfl)]
    exact this
  generalize hr : (redemptionParams start.rt req (normalizeCode req.code)
    (normalizeUserKey start.rt req.userID) (some c.id) (some c.batchId) b.payloadJson .success
    "兑换成功 🎉" (webhookStatus (b.webhookUrl ≠ "")) event).row d₃.seq.redemptions now = r
  have hrid : r.id = d₃.seq.redemptions := by rw [← hr]; rfl
  have hrevent : r.eventId = stringPtr event := by rw [← hr]; rfl
  have hrnow : r.createdAt = now := by rw [← hr]; rfl
  have hsteady₄ : start.Steady (ls ++ [.code c.id] ++
      (.redemption r.id :: r.eventId.toList.map .redemptionEvent)) fun d =>
      start.ToSucceed req wk now c b credential d ∧ d.tables.redemptions.get? r.id = none ∧
        (b.webhookUrl ≠ "" → ¬ d.tables.HasRedemptionEvent event) := by
    rw [List.append_assoc]
    refine (hsteady _).and ((steady_redemption (fun r => r = none) (by simp)).and ?_)
    intro d d' hsame hle hi hi' hf hurl
    refine steady_redemptionEvent ?_ d d' hsame hle hi hi' (hf hurl)
    have hne := ne_empty_of_isHex (by decide) (hhex hurl)
    simp [hrevent, stringPtr, hne]
  refine ⟨_, ⟨h₃.facts, hrid ▸ hnew, hevent'⟩, hsteady₄, fun d₄ h₄ => ?_⟩
  dsimp only at h₄ ⊢
  -- The outbox row, the credential and the response of the key.
  refine Go.wp_bind (createOutboxEvent_wp h₄ hsteady₄ (fun T => ?_) (fun _ d' hl => .lost hl)
    fun o ls₅ d₅ hsub₅ hlocks₅ hsteady₅ ho h₅ => ?_)
  · rw [List.append_assoc, Dbms.applyAll_append]
    exact h₄.facts.1.claimed.same Tables.outbox (fun _ _ => rfl) T
  refine Go.wp_bind (markCredentialUsed_wp h₅ hsteady₅ (fun T => ?_) (fun x hx => ?_)
    (fun id hid => ?_) (fun _ d' hl => .lost hl) fun ls₆ d₆ hsub₆ hlocks₆ h₆ => ?_)
  · rw [List.append_assoc, List.append_assoc, Dbms.applyAll_append]
    refine Eq.trans ?_ (h₅.facts.1.1.claimed.same Tables.credentials (fun _ _ => rfl) T)
    split_ifs <;> rfl
  · exact (h₅.facts.1.1.some x hx).2.1
  · refine hlocks id ?_
    simpa using hlocks₅ id hid
  rw [List.append_assoc, List.append_assoc, List.append_assoc] at h₆
  refine Go.wp_bind (storeIdempotencyResponse_wp h₆ (hsteady₅.mono hsub₆) (fun hf => hf.1.1.claimed)
    (fun T => ?_) (fun _ d' hl => .lost hl) fun ls₇ d₇ hlocks₇ h₇ => ?_)
  · split_ifs <;> cases credential <;> rfl
  -- Everything that the success is made of, at the commit.
  obtain ⟨⟨hready, hnewr, hevr⟩, hout⟩ := h₇.facts
  let g : Grant := ⟨c, b, credential, event, r, o⟩
  have hinOrder : g.InOrder start.rt start.clock d₇.clock (Past d₇.log d₇.tables) d₇.tables
      req := by
    refine ⟨hready.found, hready.checked, ?_, ⟨hnone, hhex, hevr, fun hu => (hout hu).1,
      fun hu => (hout hu).2, fun _ => ?_⟩, ?_, hnewr, hrnow ▸ hready.begun⟩
    · unfold Grant.Assigns
      cases hx : credential with
      | none => simpa [g, hx] using hready.none hx
      | some x => simpa [g, hx, hrnow] using hready.some x hx
    · rw [hrnow]
      exact ho
    · simp only [g, Grant.row]
      rw [hrid, hrnow, hr]
  have hws : wk ++ ([Write.incrementCodeUseCount c.id] ++ ([.createRedemption r] ++
      ((if b.webhookUrl = "" then [] else [.createWebhookOutboxEvent o]) ++
        match (motive := Option Credential → List Write) credential with
          | none => []
          | some x => [.markCredentialUsed x.id r.id]))) = wk ++ g.writes := by
    simp only [g, Grant.writes, Grant.outboxWrites, Grant.credentialWrites]
    split_ifs <;> cases credential <;> rfl
  rw [hws] at h₇
  refine commit_wp hmay h₇ (.succeeded hinOrder rfl hready.claimed.free ?_) (fun id hid y hy => ?_)
    (fun hcu => ?_)
  · rw [hready.claimed.writes]
  · obtain ⟨x, hx, rfl⟩ := hlocks₆ id (hlocks₇ id hid)
    subst hx
    rw [hready.claimed.writes, tables_succeeded] at hy
    simp only [g, Grant.credentialsAfter, Table.get?_modify_self, Option.map_eq_some_iff] at hy
    obtain ⟨z, -, rfl⟩ := hy
    rfl
  · cases hcu

/-! ## Looking up the code and the credential -/

/-- What is known when the code is looked up. -/
structure Start.Begun (start : Start ι) (req : RedeemRequest) (wk : List Write) (now : Time)
    (d : Database ι) : Prop where
  claimed : Claimed req.idempotencyKey (hashRequest start.rt req) wk d.tables
  begun : start.clock ≤ now ∧ now ≤ d.clock

/-- It is steady under the key's lock. -/
theorem steady_begun {req : RedeemRequest}
    (hkey : req.idempotencyKey ≠ "" → Lock.key req.idempotencyKey ∈ ls) :
    start.Steady ls (start.Begun req wk now) :=
  fun d d' hsame hle hi hi' h => ⟨steady_claimed hkey d d' hsame hle hi hi' h.claimed,
    steady_clock d d' hsame hle hi hi' h.begun⟩

/-- The code is found and locked, or there was none. -/
theorem getCodeByCode_wp {req : RedeemRequest} {text : String}
    {post : Except GoError (Option (Code × Batch)) → Database ι → Prop}
    (hkey : req.idempotencyKey ≠ "" → Lock.key req.idempotencyKey ∈ ls)
    (h : start.Held i .tx base now wk ls (start.Begun req wk now) d)
    (hfail : ∀ err d', start.Lost i (some .tx) base d' → post (.error err) d')
    (hnone : ∀ d', start.Held i .tx base now wk ls (fun d => start.Begun req wk now d ∧
      ∃ T, Past d.log d.tables T ∧ ¬ T.HasCodeText text) d' → post (.ok none) d')
    (hsome : ∀ c b d', start.Held i .tx base now wk (ls ++ [.code c.id]) (fun d =>
      start.Begun req wk now d ∧ FoundCode (Past d.log d.tables) d.tables text c b) d' →
      post (.ok (some (c, b))) d') :
    start.Wp i (getCodeByCode text).run post d := by
  have hsteady : start.Steady ls (start.Begun req wk now) := steady_begun hkey
  have hcodes : (postgres.applyAll d.tables wk).codes = d.tables.codes :=
    h.facts.claimed.same Tables.codes (fun _ _ => rfl) _
  have hbatches : (postgres.applyAll d.tables wk).batches = d.tables.batches :=
    h.facts.claimed.same Tables.batches (fun _ _ => rfl) _
  have hpast : Past d.log d.tables d.tables := Or.inl rfl
  unfold getCodeByCode
  refine Go.wp_bind (Go.wp_query h (fun _ => trivial) (fun d' hl => hfail _ d' hl)
    fun _ e he => ?_)
  rcases exec_getCodeByCode he with ⟨rfl, hno⟩ | ⟨c, b, hc, htext, hb, rfl⟩
  · -- Every code has a batch, so there is no such code.
    have hno' : ¬ d.tables.HasCodeText text := by
      rcases hno with hno | ⟨x, hx, hb⟩
      · rwa [Tables.HasCodeText, hcodes] at hno
      · rw [hcodes] at hx
        rw [hbatches] at hb
        obtain ⟨b, hb'⟩ := (h.after.inv.history.integrity hpast).codeBatch x hx
        rw [hb'] at hb
        cases hb
    refine ⟨fun d => start.Begun req wk now d ∧
      ∃ T, Past d.log d.tables T ∧ ¬ T.HasCodeText text, ⟨h.facts, d.tables, hpast, hno'⟩,
      (hsteady.append _).and ?_, fun d' hd' => Go.wp_pure (hnone d' ?_)⟩
    · exact fun d d' _ hle _ _ ⟨T, hT, hx⟩ => ⟨T, hle.past T hT, hx⟩
    · rw [List.append_nil, List.append_nil] at hd'
      exact hd'
  · -- The code's row is locked in its latest version, which has the same text and batch.
    rw [hcodes] at hc
    rw [hbatches] at hb
    refine ⟨fun d' => start.Begun req wk now d' ∧ Past d'.log d'.tables d.tables ∧
      ∃ c', d'.tables.codes.get? c.id = some c' ∧ c.Later c', ⟨h.facts, hpast, c, hc, .refl c⟩,
      (hsteady.append _).and (steady_past.and ?_), fun d' hd' => ?_⟩
    · intro d d' _ hle _ _ ⟨c', hc', hl⟩
      obtain ⟨c'', hc'', hl'⟩ := hle.tables.codes _ _ hc'
      exact ⟨c'', hc'', hl.trans hl'⟩
    rw [List.append_nil, List.append_nil] at hd'
    refine Go.wp_bind (Go.wp_query hd' (fun _ => trivial) (fun d'' hl => hfail _ d'' hl)
      fun _ e he => ?_)
    obtain ⟨hready, hpast', c', hc', hl⟩ := hd'.facts
    have hcodes' : (postgres.applyAll d'.tables wk).codes = d'.tables.codes :=
      hready.claimed.same Tables.codes (fun _ _ => rfl) _
    rcases exec_getCodeByCodeForUpdate he with ⟨hx, -⟩ | ⟨x, hx, rfl⟩
    · rw [hcodes', hc'] at hx
      cases hx
    · rw [hcodes', hc', Option.some.injEq] at hx
      subst hx
      have hfound : FoundCode (Past d'.log d'.tables) d'.tables text c' b :=
        ⟨hl.id ▸ hc', hl.code.trans htext, d.tables, hpast', hl.batchId ▸ hb⟩
      refine ⟨_, ⟨hready, hfound⟩, (hsteady.append _).and (steady_found (by simp [hl.id])),
        fun d'' hd'' => Go.wp_pure (hsome c' b d'' ?_)⟩
      rw [List.append_nil] at hd''
      rw [hl.id]
      exact hd''

/-- What is known of a code that passed the checks. -/
structure Start.Checked (start : Start ι) (req : RedeemRequest) (wk : List Write) (now : Time)
    (c : Code) (b : Batch) (d : Database ι) : Prop where
  begun : start.Begun req wk now d
  found : FoundCode (Past d.log d.tables) d.tables (normalizeCode req.code) c b
  checked : ∃ t, start.clock ≤ t ∧ t ≤ d.clock ∧ checkCodeState t c b = none

/-- It is steady under the locks of the key and the code. -/
theorem steady_checked {req : RedeemRequest} {c : Code} {b : Batch}
    (hkey : req.idempotencyKey ≠ "" → Lock.key req.idempotencyKey ∈ ls)
    (hcode : Lock.code c.id ∈ ls) : start.Steady ls (start.Checked req wk now c b) := by
  intro d d' hsame hle hi hi' h
  refine ⟨steady_begun hkey d d' hsame hle hi hi' h.begun,
    steady_found hcode d d' hsame hle hi hi' h.found, ?_⟩
  obtain ⟨t, hlo, hhi, hc⟩ := h.checked
  exact ⟨t, hlo, hhi.trans hle.clock, hc⟩

/-- If no credential is found, then all that were there at the start and are available are taken. -/
theorem exhausted_of_none {req : RedeemRequest} {c : Code} {b : Batch} (hinv : start.Inv d)
    (h : start.Checked req wk now c b d)
    (hbusy : ∀ r ∈ d.tables.credentials, r.available now b.credentialPlanType = true →
      d.busy (some (i, .tx)) (.credential r.id) = true) :
    start.Exhausted (normalizeCode req.code) d := by
  have hpast : Past d.log d.tables d.tables := Or.inl rfl
  refine Or.inr ⟨d.tables, c, b, now, hpast, h.found, h.begun.begun.1, h.begun.begun.2,
    fun r hr ha => ?_⟩
  have hid := start.below.credentials r hr
  by_cases htaken : ∀ x, d.tables.credentials.get? r.id = some x → x.used = true
  · exact Or.inl htaken
  -- The credential is there unused, so it is still as it was at the start.
  rw [not_forall] at htaken
  obtain ⟨x, hx⟩ := htaken
  rw [Classical.not_imp] at hx
  obtain ⟨r₀, hr₀, ⟨used, red, rfl⟩, -⟩ := hinv.history.credentialsKept hpast r.id x hid hx.1
  have hr₀' : r₀ = r := by
    rw [show start.tables.credentials.get? r.id = some r from Table.get?_of_mem hr,
      Option.some.injEq] at hr₀
    exact hr₀.symm
  subst hr₀'
  have hbusy' := hbusy _ (Table.mem_of_get? hx.1) (by
    simp only [Credential.available, Bool.and_eq_true] at ha ⊢
    exact ⟨⟨by simpa using hx.2, ha.1.2⟩, ha.2⟩)
  refine Or.inr ?_
  simp only [Db.busy, Bool.and_eq_true, Option.isSome_iff_exists] at hbusy'
  exact hbusy'.1

/-- A code that passed the checks is redeemed, unless it needs a credential and there is none. -/
theorem redeemAvailable_wp {req : RedeemRequest} {c : Code} {b : Batch}
    (hmay : start.MayRedeem i req base)
    (hkey : req.idempotencyKey ≠ "" → Lock.key req.idempotencyKey ∈ ls)
    (hcode : Lock.code c.id ∈ ls)
    (hcred : ∀ id, .credential id ∉ ls)
    (h : start.Held i .tx base now wk ls (start.Checked req wk now c b) d) :
    start.Wp i (redeemAvailable start.rt req (normalizeCode req.code)
      (normalizeUserKey start.rt req.userID) c b).run
      (fun r d' => TxOutcome start i req base d' r) d := by
  have hsteady : start.Steady ls (start.Checked req wk now c b) := steady_checked hkey hcode
  unfold redeemAvailable
  split_ifs with hassign
  · refine Go.wp_bind (Go.wp_query h (fun _ => trivial) (fun d' hl => .lost hl) fun _ e he => ?_)
    have hcreds : (postgres.applyAll d.tables wk).credentials = d.tables.credentials :=
      h.facts.begun.claimed.same Tables.credentials (fun _ _ => rfl) _
    rcases exec_getUnusedCredential he with ⟨rfl, hbusy⟩ | ⟨x, hx, havail, rfl⟩
    · -- None is available, so the failure is recorded with what made it so.
      rw [hcreds] at hbusy
      have hfull := exhausted_of_none h.after.inv h.facts hbusy
      refine ⟨_, ⟨h.facts, hfull⟩, (hsteady.append _).and steady_exhausted, fun d' hd' => ?_⟩
      rw [List.append_nil, List.append_nil] at hd'
      refine refuse_wp hmay hkey (fun id hid => ?_) hcred (hd'.weaken fun hf => ?_)
      · cases hid
        exact hcode
      · obtain ⟨t, hlo, hhi, hc⟩ := hf.1.checked
        exact ⟨hf.1.begun.claimed, hf.1.begun.begun,
          .noCredential hf.1.found ⟨hlo, hhi⟩ hc hassign, fun _ => hf.2⟩
    · -- The credential is locked from here on, so it stays available until it is marked.
      rw [hcreds] at hx
      refine ⟨_, ⟨h.facts, hx⟩, (hsteady.append _).and
        (steady_credential (fun r => r = some x) (by simp)), fun d' hd' => ?_⟩
      rw [List.append_nil] at hd'
      refine succeed_wp hmay (fun hk => List.mem_append_left _ (hkey hk))
        (List.mem_append_left _ hcode) (fun y hy => ?_) (fun id hid => ?_)
        (hd'.weaken fun hf => ?_)
      · cases hy
        simp
      · simp only [List.mem_append, hcred id, List.mem_singleton, Lock.credential.injEq,
          false_or] at hid
        exact ⟨x, rfl, hid.symm⟩
      · refine ⟨hf.1.begun.claimed, hf.1.begun.begun, hf.1.found, hf.1.checked,
          fun hn => by simp at hn, fun y hy => ?_⟩
        cases hy
        exact ⟨hassign, hf.2, havail⟩
  · -- The batch assigns none.
    refine succeed_wp hmay hkey hcode (fun x hx => by cases hx) (fun id hid => ?_)
      (h.weaken fun hf => ?_)
    · exact absurd hid (hcred id)
    · exact ⟨hf.begun.claimed, hf.begun.begun, hf.found, hf.checked,
        fun _ => by simpa using hassign, fun x hx => by cases hx⟩

/-- The code is looked up, checked and redeemed. -/
theorem redeemCode_wp {req : RedeemRequest} (hmay : start.MayRedeem i req base)
    (hkey : req.idempotencyKey ≠ "" → Lock.key req.idempotencyKey ∈ ls)
    (hcred : ∀ id, .credential id ∉ ls)
    (h : start.Held i .tx base now wk ls (start.Begun req wk now) d) :
    start.Wp i (redeemCode start.rt req (normalizeCode req.code)
      (normalizeUserKey start.rt req.userID)).run
      (fun r d' => TxOutcome start i req base d' r) d := by
  unfold redeemCode
  refine Go.wp_bind (getCodeByCode_wp hkey h (fun _ d' hl => .lost hl) (fun d' hd' => ?_)
    fun c b d' hd' => ?_)
  · -- No code has the text, in tables of the past.
    refine refuse_wp hmay hkey (fun id hid => by cases hid) hcred (hd'.weaken fun hf => ?_)
    obtain ⟨hbegun, T, hT, hno⟩ := hf
    exact ⟨hbegun.claimed, hbegun.begun, .invalidCode hT hno, fun hr => by cases hr⟩
  · -- The code was found and is locked; the clock is read after that.
    have hkey' : req.idempotencyKey ≠ "" → Lock.key req.idempotencyKey ∈ ls ++ [.code c.id] :=
      fun hk => List.mem_append_left _ (hkey hk)
    have hcred' : ∀ id, Lock.credential id ∉ ls ++ [.code c.id] := fun id => by simp [hcred id]
    refine Go.wp_bind (Go.wp_env hd' ((steady_begun hkey').and (steady_found (by simp)))
      fun _ t d'' ht hle hd'' => ?_)
    cases ht
    have ht : start.clock ≤ d'.clock ∧ d'.clock ≤ d''.clock := ⟨hd'.after.inv.clock, hle.clock⟩
    simp only
    cases hcheck : checkCodeState d'.clock c b with
    -- The checks refuse it, at a time between the start of the run and now.
    | some resp =>
      refine refuse_wp hmay hkey' (fun id hid => ?_) hcred'
        ⟨hd''.tx, hd''.after, hd''.quiet, ?_⟩
      · cases hid
        simp
      · obtain ⟨hbegun, hfound⟩ := hd''.facts
        exact ⟨hbegun.claimed, hbegun.begun, .state hfound ht hcheck,
          fun hr => absurd hr (checkCodeState_result hcheck)⟩
    | none =>
      refine redeemAvailable_wp hmay hkey' (by simp) hcred' ⟨hd''.tx, hd''.after, hd''.quiet, ?_⟩
      obtain ⟨hbegun, hfound⟩ := hd''.facts
      exact ⟨hbegun, hfound, d'.clock, ht.1, ht.2, hcheck⟩

/-- The part of `Redeem` in the transaction. -/
theorem redeemTx_wp {req : RedeemRequest} (hbase : start.Inv base)
    (hmay : start.MayRedeem i req base)
    (h : start.Held i .tx base base.clock [] [] (fun _ => True) d) :
    start.Wp i (redeemTx start.rt req (normalizeCode req.code)
      (normalizeUserKey start.rt req.userID)).run
      (fun r d' => TxOutcome start i req base d' r) d := by
  have hbegun : ∀ d', start.Le base d' → start.clock ≤ base.clock ∧ base.clock ≤ d'.clock :=
    fun d' hle => ⟨hbase.clock, hle.clock⟩
  unfold redeemTx
  split_ifs with hk
  · refine redeemCode_wp hmay (fun hne => absurd hk hne) (by simp) ⟨h.tx, h.after, h.quiet, ?_, ?_⟩
    · exact ⟨fun hne => absurd hk hne, by simp [openKey, hk]⟩
    · exact hbegun d h.after.le
  · refine Go.wp_bind (claimKey_wp hk h (fun _ d' hl => .lost hl) (fun wk d' hd' => ?_)
      (fun resp d' hd' ha => Go.wp_pure (.answered hd' (by simp) ha))
      fun err d' hd' ha => .answered hd' (by simp) ha)
    exact redeemCode_wp hmay (fun _ => by simp) (by simp)
      ⟨hd'.tx, hd'.after, hd'.quiet, hd'.facts, hbegun d' hd'.after.le⟩

/-- The transaction of `Redeem` can be rolled back after all outcomes. -/
theorem TxOutcome.rollsBack {req : RedeemRequest} {r : Except GoError RedeemResponse}
    (h : TxOutcome start i req base d r) : start.RollsBack i .tx d := by
  cases h with
  | done hd closed he full => exact Or.inl closed
  | answered hd locks ha =>
    refine Or.inr (Or.inr ⟨fun id _ ho => ?_, fun ht => by cases ht⟩)
    exact locks id ((hd.tx.locks _).mp ho)
  | lost hl => exact Or.inr (Or.inl hl.failing.failed)

/-- The invariant holds after all outcomes, and the other transactions are where they were. -/
theorem TxOutcome.after {req : RedeemRequest} {r : Except GoError RedeemResponse}
    (h : TxOutcome start i req base d r) : start.After i (some .tx) base d := by
  cases h with
  | done hd closed he full => exact hd.after
  | answered hd locks ha => exact hd.after
  | lost hl => exact hl.after

/-- After the rollback, `Redeem` has done what its outcome says. -/
theorem TxOutcome.outcome {req : RedeemRequest} {r : Except GoError RedeemResponse}
    {d' : Database ι} (hinput : checkInput req.trimmed (normalizeCode req.code) = none)
    (h : TxOutcome start i req.trimmed base d r) (hle : start.Le d d') (hq : Quiet i d d') :
    RedeemOutcome start i req base d' r := by
  cases h with
  | done hd closed he full =>
    exact .redeemed hinput (he.mono hle.past) (hq.log.trans hd.log) (hq.failed.trans hd.failed)
      fun hr => (full hr).mono hle
  | answered hd locks ha =>
    exact .answered hinput (ha.mono hle.tables hle.keys) (hd.quiet.trans hq)
  | lost hl => exact .failed ⟨hq.log.trans hl.failing.log, hq.failed.trans hl.failing.failed⟩

/-- `Redeem` keeps to its specification, whatever else runs. -/
theorem redeem_wp {req : RedeemRequest} (hinv : start.Inv d)
    (hmay : start.MayRedeem i req.trimmed d) :
    start.Wp i (redeem start.rt req).run
      (fun r d' => RedeemOutcome start i req d d' r ∧ start.After i (some .tx) d d') d := by
  unfold redeem
  cases hinput : checkInput req.trimmed (normalizeCode req.code) with
  | some resp =>
    exact Go.wp_pure ⟨.invalid hinput ⟨rfl, rfl⟩,
      Outline.After.refl postgres_lawful start.outline_lawful hinv⟩
  | none =>
    refine Go.wp_bind (Go.wp_begin hinv (fun d' hl => ⟨.failed hl.failing, hl.after.weaken⟩)
      fun d' hd' => ?_)
    refine Go.wp_deferRollback ((redeemTx_wp hinv hmay hd').mono fun r d₁ hr => ?_)
    refine ⟨hr.after.inv, hr.rollsBack, fun d₂ ha _ hq => ⟨hr.outcome hinput ha.le hq, ?_⟩⟩
    exact hr.after.trans postgres_lawful start.outline_lawful ha

end CdkSystem
