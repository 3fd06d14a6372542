import CdkSystem.Proof.Redeeming

/-!
# `BatchRedeem` keeps to its specification

The loop over the codes keeps the tally of what was redeemed (`redeemCodes_wp`). With a key, the
transaction that holds it is left alone by the redemptions of the codes, and what it knows about the
key's row still holds when it stores the response.

The two are put together in the outline of the outer transaction: its facts are steady under
anything that leaves its locks alone, and the inner calls, although they belong to the same program,
use other slots and so count as such. What the loop has committed is in the log, which is how the
response can be compared with it after the run.
-/

namespace CdkSystem

open RowLock Relational

variable {ι : Type} [DecidableEq ι] {start : Start ι} {i : ι} {d d' base : Database ι}
  {req : BatchRedeemRequest} {seen : List String} {items : List (String × BatchRedeemItem)}
  {own : List (Commit ι Tables)}

omit [DecidableEq ι] in
/-- What was redeemed in the past stays redeemed. -/
theorem Tally.mono {rt : Runtime} {clock : Time} {past past' : Tables → Prop}
    (h : Tally rt clock past req seen items own) (hp : ∀ T, past T → past' T) :
    Tally rt clock past' req seen items own := by
  induction h with
  | start => exact .start
  | skipped h herror ih => exact .skipped ih herror
  | rejected h hcheck hinput ih => exact .rejected ih hcheck hinput
  | redeemed h hcheck he ih => exact .redeemed ih hcheck (he.mono hp)

/-- What a batch request has done stays done while the others run. -/
theorem BatchOutcome.mono {r : Except GoError BatchRedeemResponse}
    (h : BatchOutcome start i req d r) (hle : start.Le d d') (hq : Quiet i d d') :
    BatchOutcome start i req d' r := by
  cases h with
  | invalid h log => exact .invalid h (hq.log.trans log)
  | answered hinput h log =>
    exact .answered hinput (h.mono hle.tables hle.keys) (hq.log.trans log)
  | done hinput hkey tally all log =>
    exact .done hinput hkey (tally.mono hle.past) all (hq.log.trans log)
  | stored hinput hkey tally all log hrow =>
    exact .stored hinput hkey (tally.mono hle.past) all (hq.log.trans log)
      (hle.keys _ _ hrow rfl)
  | failed h => exact .failed (hq.failed.trans h)

/-- What holds in the loop: the tally of the codes so far is what was committed since `base`. -/
structure Start.Tallied (start : Start ι) (i : ι) (req : BatchRedeemRequest) (base : Database ι)
    (seen : List String) (items : List (String × BatchRedeemItem)) (own : List (Commit ι Tables))
    (d : Database ι) : Prop where
  after : start.After i (some .tx) base d
  log : d.ownLog i = base.ownLog i ++ own
  failed : d.failed i = base.failed i
  tally : Tally start.rt start.clock (Past d.log d.tables) req seen items own

/-- The call may redeem the codes of its request. -/
theorem mayRedeem_item (hcall : start.calls i = .batchRedeem req) {code : String}
    (hcode : code ∈ req.codes)
    (hkey : req.idempotencyKey ≠ "" →
      d.owner (.key req.idempotencyKey) = some (i, .idempotencyTx)) :
    start.MayRedeem i (req.itemRequest code) d := by
  refine ⟨fun log e resp he => ?_, fun breq hbreq hk => ?_⟩
  · rw [hcall]
    exact .batchItem hcode he
  · rw [hcall, Call.batchRedeem.injEq] at hbreq
    exact hbreq ▸ hkey (hbreq ▸ hk)

/-- An operation of the loop has failed. -/
def Start.LoopFailed (start : Start ι) (i : ι) (base d : Database ι) : Prop :=
  d.failed i = true ∧ start.After i (some .tx) base d

/-- What one turn of the loop leaves. -/
def Start.ItemDone (start : Start ι) (i : ι) (req : BatchRedeemRequest) (base : Database ι)
    (items : List (String × BatchRedeemItem)) (code : String) :
    Except GoError (List String × BatchRedeemItem) → Database ι → Prop
  | .ok r, d => ∃ own, start.Tallied i req base r.1 (items ++ [(code, r.2)]) own d
  | .error _, d => start.LoopFailed i base d

/-- What the loop leaves: an item for each code, with the tally of what was done for them, or a
failure. -/
def Start.LoopDone (start : Start ι) (i : ι) (req : BatchRedeemRequest) (base : Database ι)
    (codes : List String) : Except GoError BatchRedeemResponse → Database ι → Prop
  | .ok resp, d => ∃ seen items own, start.Tallied i req base seen items own d ∧
      items.map Prod.fst = codes ∧ resp = req.trimmed.response items
  | .error _, d => start.LoopFailed i base d

/-- One code of the request: it is skipped, or redeemed by a transaction of its own. -/
theorem redeemItem_wp (hcall : start.calls i = .batchRedeem req) {code : String}
    (hcode : code ∈ req.codes)
    (hkey : req.idempotencyKey ≠ "" →
      base.owner (.key req.idempotencyKey) = some (i, .idempotencyTx))
    (h : start.Tallied i req base seen items own d) :
    start.Wp i (redeemItem start.rt req.trimmed seen code).run
      (start.ItemDone i req base items code) d := by
  have hkey' : req.idempotencyKey ≠ "" →
      d.owner (.key req.idempotencyKey) = some (i, .idempotencyTx) :=
    fun hk => ((h.after.frame .idempotencyTx (by simp)).owner _).mpr (hkey hk)
  unfold redeemItem
  cases herror : itemError seen (normalizeCode code) with
  | some message => exact Go.wp_pure ⟨own, h.after, h.log, h.failed, .skipped h.tally herror⟩
  | none =>
    refine Go.wp_bind (Go.wp_withContext
      ((redeem_wp h.after.inv (mayRedeem_item hcall hcode hkey')).mono fun r d' ⟨hr, ha⟩ => ?_))
    have hafter := h.after.trans postgres_lawful start.outline_lawful ha
    have htally := h.tally.mono ha.le.past
    cases hr with
    | invalid hinput hq =>
      exact Go.wp_pure ⟨own, hafter, hq.log.trans h.log, hq.failed.trans h.failed,
        .rejected htally herror hinput⟩
    | answered hinput hans hq => cases hans <;> exact absurd rfl ‹_ ≠ ""›
    | redeemed hinput he hlog hfailed hfull =>
      refine Go.wp_pure ⟨_, hafter, ?_, hfailed.trans h.failed, .redeemed htally herror he⟩
      rw [hlog, h.log, List.append_assoc]
    | failed hf => exact ⟨hf.failed, hafter⟩

/-- The loop over the codes: every one of them adds an item, and at most one commit. -/
theorem redeemCodes_wp (hcall : start.calls i = .batchRedeem req)
    (hkey : req.idempotencyKey ≠ "" →
      base.owner (.key req.idempotencyKey) = some (i, .idempotencyTx)) :
    ∀ {codes : List String} {seen items own d}, (∀ code ∈ codes, code ∈ req.codes) →
      start.Tallied i req base seen items own d →
      start.Wp i (redeemCodes start.rt req.trimmed seen (req.trimmed.response items) codes).run
        (start.LoopDone i req base (items.map Prod.fst ++ codes)) d := by
  intro codes
  -- The induction is on the codes that are left; the tally is about those that were done.
  induction codes with
  | nil =>
    intro seen items own d _ h
    exact Go.wp_pure ⟨seen, items, own, h, by simp, rfl⟩
  | cons code codes ih =>
    intro seen items own d hcodes h
    refine Go.wp_bind ((redeemItem_wp hcall (hcodes code (by simp)) hkey h).mono
      fun r d' hr => ?_)
    cases r with
    | error err => exact hr
    | ok r =>
      obtain ⟨own', h'⟩ := hr
      have hresp : (req.trimmed.response items).add r.2 =
          req.trimmed.response (items ++ [(code, r.2)]) := by
        simp [BatchRedeemRequest.response]
      have := ih (fun c hc => hcodes c (by simp [hc])) h'
      simp only [List.map_append, List.map_cons, List.map_nil, List.append_assoc,
        List.singleton_append] at this
      simp only [hresp]
      exact this

/-! ## The whole request -/

/-- Before the first code, nothing is tallied. -/
theorem tallied_start (hinv : start.Inv d) : start.Tallied i req d [] [] [] d :=
  ⟨Outline.After.refl postgres_lawful start.outline_lawful hinv, by simp, rfl, .start⟩

/-- A commit that stores a response leaves it in the key's row for good. -/
theorem stored_row {e : Commit ι Tables} {key : String} {hash : List UInt8} {body : Json}
    (hinv : start.Inv d) (hk : key ≠ "") (hfree : KeyFree e.before key hash)
    (hafter : e.after = postgres.applyAll e.before (openKey e.before key hash ++ closeKey key body))
    (he : e ∈ d.log) :
    d.tables.keys.get? key = some ⟨key, hash, some body⟩ := by
  have hkeys : e.after.keys = keyed e.before.keys key hash body := by
    rw [hafter, tables_stored]
  exact hinv.history.keyed_row he hk hfree hkeys

/-- The response of the codes is stored in the key's row and committed. -/
theorem storeAndCommit_wp {now : Time} {wk : List Write} (err : GoError)
    (hcall : start.calls i = .batchRedeem req) (hinput : checkBatchInput req.trimmed = none)
    (hkey : req.idempotencyKey ≠ "") (hlog : d.ownLog i = own)
    (tally : Tally start.rt start.clock (Past d.log d.tables) req seen items own)
    (all : items.map Prod.fst = req.codes)
    (h : start.Held i .idempotencyTx d now wk [.key req.idempotencyKey]
      (fun d => Claimed req.idempotencyKey (hashBatchRequest start.rt req.trimmed) wk d.tables) d) :
    start.Wp i (do
        storeBatchIdempotencyResponse req.trimmed.idempotencyKey (req.trimmed.response items)
        Go.commit err .idempotencyTx
        return req.trimmed.response items : Go BatchRedeemResponse).run
      (fun r d' => start.Inv d' ∧ start.RollsBack i .idempotencyTx d' ∧
        BatchOutcome start i req d' r) d := by
  have hlost : ∀ (err : GoError) d', start.Lost i (some .idempotencyTx) d d' →
      start.Inv d' ∧ start.RollsBack i .idempotencyTx d' ∧
      BatchOutcome start i req d' (.error err) :=
    fun _ d' hl => ⟨hl.after.inv, Or.inr (Or.inl hl.failing.failed), .failed hl.failing.failed⟩
  refine Go.wp_bind (store_wp [] hkey (by simpa using h) (steady_claimed fun _ => by simp)
    (fun hc => hc) (fun _ => rfl) (fun d₁ hl => hlost _ d₁ hl) fun d₁ h₁ => ?_)
  -- What the transaction knows about the key's row still holds at its commit.
  have hclaimed := h₁.facts
  have hlog₁ : d₁.ownLog i = own := h₁.quiet.log.trans hlog
  have htally : Tally start.rt start.clock (Past d₁.log d₁.tables) req seen items
      (d₁.ownLog i) := by
    rw [hlog₁]
    exact tally.mono h₁.after.le.past
  rw [List.append_nil] at h₁
  refine Go.wp_bind (Go.wp_commit h₁ ⟨?_, fun id _ ho => ?_, fun _ _ _ ht => by cases ht⟩
    (fun d₂ hl => hlost _ d₂ hl) fun d₂ hle hclosed hd => ?_)
  · rw [hcall]
    refine .batchStored hkey htally all hclaimed.free ?_
    rw [hclaimed.writes]
  · have := (h₁.tx.locks _).mp ho
    simp at this
  · have hmem := List.mem_append_right (d.ownLog i) (List.mem_singleton_self
      (⟨i, d₁.clock, d₁.tables, postgres.applyAll d₁.tables (wk ++
        closeKey req.idempotencyKey (req.trimmed.response items).marshal)⟩ : Commit ι Tables))
    rw [← hd.log] at hmem
    refine Go.wp_pure ⟨hd.after.inv, Or.inl hclosed, .stored hinput hkey
      (tally.mono hd.after.le.past) all (hd.log.trans (by rw [hlog])) ?_⟩
    refine stored_row hd.after.inv hkey hclaimed.free ?_ (List.mem_filter.mp hmem).1
    rw [hclaimed.writes]

/-- The part of `BatchRedeem` in the transaction that holds the key. -/
theorem batchRedeemTx_wp (hcall : start.calls i = .batchRedeem req)
    (hinput : checkBatchInput req.trimmed = none) (hkey : req.idempotencyKey ≠ "")
    (hlog : base.ownLog i = [])
    (h : start.Held i .idempotencyTx base base.clock [] [] (fun _ => True) d) :
    start.Wp i (batchRedeemTx start.rt req.trimmed).run
      (fun r d' => start.Inv d' ∧ start.RollsBack i .idempotencyTx d' ∧
        BatchOutcome start i req d' r) d := by
  have hanswered : ∀ r d', start.Held i .idempotencyTx base base.clock [] [.key req.idempotencyKey]
      (fun _ => True) d' →
      Answered BatchRedeemResponse.unmarshal req.idempotencyKey
        (hashBatchRequest start.rt req.trimmed) d'.tables r →
      start.Inv d' ∧ start.RollsBack i .idempotencyTx d' ∧ BatchOutcome start i req d' r := by
    intro r d' hd' ha
    have hlog' := hd'.quiet.log.trans hlog
    refine ⟨hd'.after.inv, Or.inr (Or.inr ⟨fun id _ ho => ?_, fun _ => hlog'⟩),
      .answered hinput ha hlog'⟩
    have := (hd'.tx.locks _).mp ho
    simp at this
  unfold batchRedeemTx
  refine Go.wp_bind (claimKey_wp hkey h
    (fun _ d' hl => ⟨hl.after.inv, Or.inr (Or.inl hl.failing.failed), .failed hl.failing.failed⟩)
    (fun wk d₁ h₁ => ?_) (fun resp d' hd' ha => Go.wp_pure (hanswered _ d' hd' ha))
    fun err d' hd' ha => hanswered _ d' hd' ha)
  have howner : req.idempotencyKey ≠ "" →
      d₁.owner (.key req.idempotencyKey) = some (i, .idempotencyTx) :=
    fun _ => (h₁.tx.locks _).mpr (by simp)
  refine Go.wp_bind ((redeemCodes_wp hcall howner (fun _ hc => hc)
    (tallied_start h₁.after.inv)).mono fun r d₂ hr => ?_)
  cases r with
  | error err => exact ⟨hr.2.inv, Or.inr (Or.inl hr.1), .failed hr.1⟩
  | ok resp =>
    obtain ⟨seen, items, own, htallied, hall, rfl⟩ := hr
    -- The transaction that holds the key was left alone by those of the codes.
    have htx := htallied.after.inTx (by simp) h₁.tx
    have hrows := htallied.after.rows (by simp) h₁.tx
    refine storeAndCommit_wp (.wrap "commit batch idempotency transaction" .database) hcall hinput
      hkey ?_ htallied.tally hall ⟨htx, ?_, ⟨rfl, rfl⟩, ?_⟩
    · rw [htallied.log, h₁.quiet.log, hlog, List.nil_append]
    · exact Outline.After.refl postgres_lawful start.outline_lawful htallied.after.inv
    · exact steady_claimed (fun _ => by simp) d₁ d₂ hrows htallied.after.le h₁.after.inv
        htallied.after.inv h₁.facts

/-- `BatchRedeem` keeps to its specification, whatever else runs. -/
theorem batchRedeem_wp (hcall : start.calls i = .batchRedeem req) (hinv : start.Inv d)
    (hlog : d.ownLog i = []) :
    start.Wp i (batchRedeem start.rt req).run (fun r d' => BatchOutcome start i req d' r) d := by
  unfold batchRedeem
  cases hinput : checkBatchInput req.trimmed with
  | some resp => exact Go.wp_pure (.invalid hinput hlog)
  | none =>
    simp only
    split_ifs with hkey
    · refine (redeemCodes_wp hcall (fun hne => absurd hkey hne) (fun _ hc => hc)
        (tallied_start hinv)).mono fun r d' hr => ?_
      cases r with
      | error err => exact .failed hr.1
      | ok resp =>
        obtain ⟨seen, items, own, htallied, hall, rfl⟩ := hr
        refine .done hinput hkey htallied.tally hall ?_
        rw [htallied.log, hlog, List.nil_append]
    · refine Go.wp_bind (Go.wp_begin hinv (fun d' hl => .failed hl.failing.failed) fun d' hd' => ?_)
      refine Go.wp_deferRollback ((batchRedeemTx_wp hcall hinput hkey hlog hd').mono
        fun r d₁ h => ⟨h.1, h.2.1, fun d₂ ha _ hq => h.2.2.mono ha.le hq⟩)

end CdkSystem
