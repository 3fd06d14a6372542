import CdkSystem.Theorems.RedeemEffects

/-!
# Credentials are handed out once

A credential that is used stays as it is for as long as it is there, and no import brings back a
credential that was there before (`History.usedKept`), so no two commits hand out one credential
(`History.handsOut_once`). What each redemption does to the credentials is `Dispenses`.

The commit of a success has locked the row of the credential that it takes, and has found it unused
and of the plan of its batch. After the commit it is used, and `History.usedKept` says that it stays
so in all later tables, since imports insert rows under new numbers only. The response names the
same credential as the row (`Dispenses.success`), so what users are given is told by the committed
rows.
-/

namespace CdkSystem

open RowLock Relational

variable {ι : Type} {start : Start ι} {log : List (Commit ι Tables)} {e : Commit ι Tables}
  {T T' : Tables}

/-- A commit hands a credential out: it was unused before, and it is used afterwards. -/
def HandsOut (e : Commit ι Tables) (id : ℕ) : Prop :=
  (∃ x, e.before.credentials.get? id = some x ∧ x.used = false) ∧
    ∃ x, e.after.credentials.get? id = some x ∧ x.used = true

/-- The credential `x` is what a commit hands out to the redemption `r` of a code of the batch `b`:
an unused one of the batch's plan that has not expired when the transaction begins, and nothing else
happens to the credentials. -/
structure HandedOut (e : Commit ι Tables) (r : Redemption) (b : Batch) (x : Credential) : Prop where
  row : e.before.credentials.get? x.id = some x
  unused : x.used = false
  plan : x.planType = b.credentialPlanType
  unexpired : ∀ t, x.expired = some t → r.createdAt < t
  after : e.after.credentials = e.before.credentials.modify x.id (Credential.markUsed r.id)
    (Credential.key_markUsed r.id)

/-- A commit of a redemption with the response `resp` and the new row `r`: the credentials change
only by a success for a batch that assigns them, which hands out the one in the response. -/
structure Dispenses (e : Commit ι Tables) (r : Redemption) (resp : RedeemResponse) : Prop where
  new : e.before.redemptions.get? r.id = none
  redemptions : e.after.redemptions = e.before.redemptions.insert r
  result : resp.result = .known r.result
  failure : r.result ≠ .success → e.after.credentials = e.before.credentials
  success : r.result = .success → ∃ b, r.batchId = some b.id ∧
    e.before.batches.get? b.id = some b ∧
    (b.assignCredential = false → e.after.credentials = e.before.credentials ∧
      resp.credential = none) ∧
    (b.assignCredential = true → ∃ x, HandedOut e r b x ∧ resp.credential = some x.data)

variable [DecidableEq ι]

/-! ## At most once -/

/-- The tables after a commit were committed. -/
theorem History.past_after (h : History start log T) (he : e ∈ log) : Past log T e.after := by
  induction h with
  | start => cases he
  | @commit log e' h time he' ih =>
    rcases List.mem_append.mp he with he | he
    · exact past_commit.mpr (Or.inr (ih he))
    · rw [List.mem_singleton.mp he]
      exact past_commit.mpr (Or.inl rfl)

/-- A credential that was used at some time is as it was then, if it still is there. -/
theorem History.usedKept (h : History start log T) (hT' : Past log T T') {id : ℕ}
    {x x' : Credential} (hx : T'.credentials.get? id = some x) (hused : x.used = true)
    (hx' : T.credentials.get? id = some x') : x' = x := by
  induction h generalizing x' with
  | start =>
    rcases hT' with rfl | ⟨e, he, -⟩
    · rw [hx, Option.some.injEq] at hx'
      exact hx'.symm
    · cases he
  | @commit log e h time he ih =>
    rcases past_commit.mp hT' with rfl | hT'
    · rw [hx, Option.some.injEq] at hx'
      exact hx'.symm
    · obtain ⟨c, hc, hlater⟩ := he.credentialKept (Or.inr ⟨T', x, hT', hx⟩) hx'
      obtain rfl := ih hT' hc
      exact hlater.2 hused

/-- No two commits hand out one credential. -/
theorem History.handsOut_once (h : History start log T) :
    log.Pairwise fun e e' => ∀ id, ¬ (HandsOut e id ∧ HandsOut e' id) := by
  induction h with
  | start => exact List.Pairwise.nil
  | @commit log e h time he ih =>
    refine List.pairwise_append.mpr ⟨ih, List.pairwise_singleton _ _, fun e' he' e'' he'' => ?_⟩
    obtain rfl := List.mem_singleton.mp he''
    rintro id ⟨⟨-, x, hx, hused⟩, ⟨x', hx', hunused⟩, -⟩
    obtain rfl := h.usedKept (h.past_after he') hx hused hx'
    rw [hused] at hunused
    cases hunused

/-! ## What a redemption does -/

/-- Two versions of a batch differ in the status only. -/
theorem History.batch_later {T₁ T₂ : Tables} (h : History start log T) (h₁ : Past log T T₁)
    (h₂ : Past log T T₂) {id : ℕ} {b₁ b₂ : Batch} (hb₁ : T₁.batches.get? id = some b₁)
    (hb₂ : T₂.batches.get? id = some b₂) : b₁.Later b₂ := by
  obtain ⟨b, hb, s₁, rfl⟩ := (h.past_evolves h₁).batches id b₁ hb₁
  obtain ⟨b', hb', s₂, hlater⟩ := (h.past_evolves h₂).batches id b₂ hb₂
  rw [hb, Option.some.injEq] at hb'
  rw [← hb'] at hlater
  -- Both become the current version by a change of the status.
  refine ⟨b₂.status, ?_⟩
  calc b₂ = { ({ b₂ with status := s₂ } : Batch) with status := b₂.status } := rfl
    _ = { ({ b₁ with status := s₁ } : Batch) with status := b₂.status } := by rw [hlater]
    _ = { b₁ with status := b₂.status } := rfl

/-- A batch that assigns credentials has a plan. -/
theorem Batch.Valid.plan_ne {b : Batch} (h : b.Valid) (hassign : b.assignCredential = true) :
    b.credentialPlanType ≠ "" := by
  intro hplan
  have := h.planRequired hassign
  rw [hplan] at this
  exact absurd this (by decide)

/-- A committed redemption does to the credentials what its response says. -/
theorem Redeemed.dispenses {clock : Time} {req : RedeemRequest} {resp : RedeemResponse}
    (h : History start log T) (hmem : e ∈ log)
    (he : Redeemed start.rt clock (Past log T) req e resp) : ∃ r, Dispenses e r resp := by
  have hbefore : Past log T e.before := Or.inr ⟨e, hmem, rfl⟩
  cases he with
  | @refused codeID batchID resp result id createdAt reason known new hcreated free after =>
    have hresult : result ≠ .success := fun h => reason.result_ne.1 (by rw [known, h])
    rw [tables_refused] at after
    exact ⟨refusedRow start.rt req codeID batchID resp result id createdAt, new, by rw [after],
      known, fun _ => by rw [after], fun hsuccess => absurd hsuccess hresult⟩
  | @succeeded g redeemedAt resp inOrder response free after =>
    rw [tables_succeeded] at after
    have hrow := inOrder.row
    -- The batch that was read is the one of the tables before, except for its status.
    obtain ⟨T₁, hT₁, hb₁⟩ := inOrder.found.batch
    obtain ⟨b, hb⟩ := (h.integrity hbefore).codeBatch g.code (Table.mem_of_get? inOrder.found.row)
    obtain ⟨status, hlater⟩ := h.batch_later hT₁ hbefore hb₁ hb
    have hassign : b.assignCredential = g.batch.assignCredential := by rw [hlater]
    have hplan : b.credentialPlanType = g.batch.credentialPlanType := by rw [hlater]
    have hid : b.id = g.code.batchId := Table.key_of_get? hb
    have hassigns := inOrder.assigns
    unfold Grant.Assigns at hassigns
    refine ⟨g.redemption, inOrder.new, by rw [after], by rw [response, hrow]; rfl,
      fun hne => absurd (by rw [hrow]; rfl) hne, fun _ => ⟨b, by rw [hrow, hid]; rfl, by rwa [hid],
        fun hno => ?_, fun hyes => ?_⟩⟩
    · cases hx : g.credential with
      | none =>
        refine ⟨?_, by rw [response, hx]; rfl⟩
        rw [after, Grant.credentialsAfter, hx]
      | some x =>
        rw [hx] at hassigns
        rw [hassign, hassigns.1] at hno
        cases hno
    · cases hx : g.credential with
      | none =>
        rw [hx] at hassigns
        rw [hassign, hassigns] at hyes
        cases hyes
      | some x =>
        rw [hx] at hassigns
        obtain ⟨-, hget, havail⟩ := hassigns
        simp only [Credential.available, Bool.and_eq_true, Bool.not_eq_true', Option.all_eq_true,
          decide_eq_true_eq, Bool.or_eq_true] at havail
        refine ⟨x, ⟨hget, havail.1.1, ?_, havail.1.2, ?_⟩, by rw [response, hx]; rfl⟩
        · rw [hplan]
          refine havail.2.resolve_left fun hempty => ?_
          exact ((h.integrity hbefore).batch b (Table.mem_of_get? hb)).plan_ne hyes
            (hplan.trans hempty)
        · rw [after, Grant.credentialsAfter, hx]

omit [DecidableEq ι] in
/-- What was committed before a commit is in the past of everything later. -/
theorem History.past_mono {log' : List (Commit ι Tables)} (hlog : log' ++ [e] <+: log) {T' : Tables}
    (hT' : Past log' e.before T') : Past log T T' := by
  have hmem : ∀ e' ∈ log' ++ [e], e' ∈ log := fun e' he' => hlog.subset he'
  rcases hT' with rfl | ⟨e', he', rfl⟩
  · exact Or.inr ⟨e, hmem e (by simp), rfl⟩
  · exact Or.inr ⟨e', hmem e' (by simp [he']), rfl⟩

/-- Every commit of a redemption, of one code or of a code of a batch request, is one that does to
the credentials what its response says, or changes neither redemptions nor credentials. -/
theorem History.dispenses (h : History start log T) (he : e ∈ log)
    (hcall : (∃ req, start.calls e.caller = .redeem req) ∨
      ∃ req, start.calls e.caller = .batchRedeem req) :
    (∃ r resp, Dispenses e r resp) ∨
      e.after.redemptions = e.before.redemptions ∧ e.after.credentials = e.before.credentials := by
  obtain ⟨log', hprefix, h', htrans⟩ := h.transition he
  have hmono : ∀ T', Past log' e.before T' → Past log T T' := fun _ => History.past_mono hprefix
  generalize hc : start.calls e.caller = call at hcall htrans
  cases htrans with
  | idle after => exact Or.inr (by rw [after]; exact ⟨rfl, rfl⟩)
  | redeem hr =>
    obtain ⟨r, hd⟩ := (hr.mono hmono).dispenses h he
    exact Or.inl ⟨r, _, hd⟩
  | batchItem hcode hr =>
    obtain ⟨r, hd⟩ := (hr.mono hmono).dispenses h he
    exact Or.inl ⟨r, _, hd⟩
  | batchStored hkey tally all free after =>
    exact Or.inr (by rw [after, tables_stored]; exact ⟨rfl, rfl⟩)
  | deleted ids hdelete after =>
    -- A redemption deletes nothing: the list of a deletion comes from another call.
    have hids : ids = [] := by
      refine List.eq_nil_iff_forall_not_mem.mpr fun id hid => ?_
      have := hdelete id hid
      rcases hcall with ⟨req, rfl⟩ | ⟨req, rfl⟩ <;> exact this
    rw [hids] at after
    exact Or.inr (by rw [after]; exact ⟨rfl, rfl⟩)
  | toggledBatch | toggledCode | resent | imported | leased | outboxReported | redemptionReported
  | createdBatch =>
    rcases hcall with ⟨req, hreq⟩ | ⟨req, hreq⟩ <;> cases hreq

/-- In every run of any calls: no credential is handed out by two commits; every committed
redemption changes the credentials only by a success for a batch that assigns them, which hands out
the one in its response; and a `Redeem` that has returned has committed one such redemption, the one
of its response, or nothing at all. -/
theorem credentials_handed_out_once {as : List (Action ι Choice)} {s : State ι}
    (h : start.run as = some s) :
    (s.db.log.Pairwise fun e e' => ∀ id, ¬ (HandsOut e id ∧ HandsOut e' id)) ∧
    (∀ e ∈ s.db.log, ((∃ req, start.calls e.caller = .redeem req) ∨
        ∃ req, start.calls e.caller = .batchRedeem req) →
      (∃ r resp, Dispenses e r resp) ∨
        e.after.redemptions = e.before.redemptions ∧
          e.after.credentials = e.before.credentials) ∧
    ∀ i req r, start.calls i = .redeem req → s.progs i = some (.ret r) →
      s.db.ownLog i = [] ∨ ∃ e row resp, s.db.ownLog i = [e] ∧ r = .redeem (.ok resp) ∧
        Dispenses e row resp := by
  have hh := Start.history h
  refine ⟨hh.handsOut_once, fun e he hcall => hh.dispenses he hcall, fun i req r hcall hret => ?_⟩
  obtain ⟨r', rfl, hr⟩ := Start.redeem_returned h hcall hret
  have hstart : start.state.db.ownLog i = [] := rfl
  cases hr with
  | invalid hinput hq => exact Or.inl (hq.log.trans hstart)
  | answered hinput ha hq => exact Or.inl (hq.log.trans hstart)
  | failed hf => exact Or.inl (hf.log.trans hstart)
  | @redeemed e resp hinput he hlog hfailed hfull =>
    rw [hstart, List.nil_append] at hlog
    have hmem : e ∈ s.db.ownLog i := by
      rw [hlog]
      exact List.mem_singleton_self e
    obtain ⟨row, hd⟩ := he.dispenses hh (List.mem_filter.mp hmem).1
    exact Or.inr ⟨e, row, resp, hlog, rfl, hd⟩

/-- The credential in stock is handed out by the one commit of the redemption. -/
theorem credentials_handed_out_once_reward : ∃ s, rewardOne.run rewardRun = some s ∧
    ∃ e row resp, s.db.ownLog () = [e] ∧ Dispenses e row resp ∧ row.result = .success := by
  have hsome : ((rewardOne.result? rewardRun ()).bind Result.response?).any
      (fun resp => resp.result = .known .success) = true := by decide +kernel
  have hone : (rewardOne.run rewardRun).map (fun s => s.db.log.length) = some 1 := by decide +kernel
  obtain ⟨resp, hresp, hresult⟩ := (Option.any_eq_true _ _).mp hsome
  obtain ⟨r, hr, hresp⟩ := Option.bind_eq_some_iff.mp hresp
  obtain ⟨s, hs, hp⟩ := Start.result?_eq_some hr
  rw [Result.response?_eq_some hresp] at hp
  rw [hs] at hone
  have hlength : s.db.log.length = 1 := Option.some.inj hone
  rcases (credentials_handed_out_once hs).2.2 () _ _ rfl hp with
    hnil | ⟨e, row, resp', hlog, hr, hd⟩
  · rw [ownLog_unit] at hnil
    rw [hnil] at hlength
    cases hlength
  · cases hr
    have hknown := hd.result.symm.trans (of_decide_eq_true hresult)
    exact ⟨s, hs, e, row, _, hlog, hd, ResultText.known.inj hknown⟩

end CdkSystem
