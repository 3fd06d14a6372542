import CdkSystem.Lib.Progress
import CdkSystem.Proof.Reporting

/-!
# Reports in redemptions

A worker reports the outcome of a delivery first in the outbox and then in the redemption, in two
statements. What a step does to redemptions, to the outbox and to the workers between the two is one
of six things (`Start.webhookStep`). A lease overtakes a report if it is granted between the two
statements on the same event (`Start.Overtaken`), which takes two workers
(`Start.Overtaken.two_workers`). Without that, the reports that are still to be made agree with the
outbox (`Start.fenced`).
-/

namespace CdkSystem

open RowLock Relational

variable {ι : Type} [DecidableEq ι] {start : Start ι} {as : List (Action ι Choice)}
  {act : Action ι Choice} {s s' : State ι} {i j : ι} {event : String}
  {p : UpdateRedemptionWebhookStatusParams}

/-- A worker is about to make this report in a redemption. -/
def Start.Reporting (start : Start ι) (s : State ι) (i : ι)
    (p : UpdateRedemptionWebhookStatusParams) : Prop :=
  (∃ turns, start.calls i = .worker turns) ∧
    ∃ k, s.progs i = some (.op (.auto (.updateRedemptionWebhookStatus p)) k)

omit [DecidableEq ι] in
/-- A worker is about to make one report only. -/
theorem Start.Reporting.eq {p p' : UpdateRedemptionWebhookStatusParams} (h : start.Reporting s i p)
    (h' : start.Reporting s i p') : p = p' := by
  obtain ⟨-, k, hk⟩ := h
  obtain ⟨-, k', hk'⟩ := h'
  rw [hk, Option.some.injEq, Prog.op.injEq] at hk'
  obtain ⟨hop, -⟩ := hk'
  cases hop
  rfl

/-- A commit makes a new event for a redemption on behalf of an administrator, and the redemption
shows as pending. -/
def Start.Resends (start : Start ι) (d d' : Database ι) (id : ℕ) : Prop :=
  ∃ (e : Commit ι Tables) (event : String) (o : WebhookOutbox), d'.log = d.log ++ [e] ∧
    start.calls e.caller = .resendWebhook id ∧ e.after = postgres.applyAll e.before
      [.prepareRedemptionWebhookResend id event, .createWebhookOutboxEvent o]

/-- What a step does to redemptions, to the outbox, and to the workers that are about to report. -/
inductive WebhookStep (start : Start ι) (s s' : State ι) : Prop
  /-- A call that is not a worker has an effect, or nothing happens. -/
  | other (effect : WebhookEffect s.db.tables s'.db.tables)
      (rows : ∀ r ∈ s.db.tables.redemptions, r ∈ s'.db.tables.redemptions ∨
        start.Resends s.db s'.db r.id)
      (keeps : ∀ j p, start.Reporting s' j p ↔ start.Reporting s j p)
  /-- A worker leases an event. -/
  | leased {e : Commit ι Tables} {o : WebhookOutbox} {token : String} {expires : Time}
      (row : s.db.tables.outbox.get? o.id = some o) (live : o.Live)
      (log : s'.db.log = s.db.log ++ [e]) (lease : Leases e (o.lease token expires))
      (tables : s'.db.tables = s.db.tables.apply (.leaseWebhookOutboxEvent o.id token expires))
      (keeps : ∀ j p, start.Reporting s' j p ↔ start.Reporting s j p)
  /-- A worker reports in the outbox and is about to report in the redemption. -/
  | reported {i : ι} {p : UpdateRedemptionWebhookStatusParams} {o : WebhookOutbox}
      {report : OutboxReport} (row : s.db.tables.outbox.get? o.id = some o)
      (leased : o.leaseToken.isSome = true)
      (tables : s'.db.tables = s.db.tables.apply (.updateWebhookOutbox o.id report))
      (redemption : p.id = o.redemptionId) (event : p.eventId = o.eventId)
      (status : p.webhookStatus = redemptionStatus report.status)
      (reporting : start.Reporting s' i p) (before : ∀ p, ¬ start.Reporting s i p)
      (keeps : ∀ j p, j ≠ i → (start.Reporting s' j p ↔ start.Reporting s j p))
  /-- A worker reports in the redemption. -/
  | settled {i : ι} {p : UpdateRedemptionWebhookStatusParams} {r : Redemption}
      {report : WebhookReport} (reporting : start.Reporting s i p)
      (row : s.db.tables.redemptions.get? p.id = some r) (event : r.eventId = some p.eventId)
      (status : report.status = p.webhookStatus)
      (tables : s'.db.tables = s.db.tables.apply (.updateRedemptionWebhookStatus p.id report))
      (keeps : ∀ j p, start.Reporting s' j p ↔ start.Reporting s j p ∧ j ≠ i)
  /-- A worker reports on an event that is not the redemption's any more. -/
  | missed {i : ι} {p : UpdateRedemptionWebhookStatusParams} (reporting : start.Reporting s i p)
      (event : ∀ r, s.db.tables.redemptions.get? p.id = some r → r.eventId ≠ some p.eventId)
      (tables : s'.db.tables = s.db.tables)
      (keeps : ∀ j p, start.Reporting s' j p ↔ start.Reporting s j p ∧ j ≠ i)
  /-- The report of a worker fails, or the worker dies. -/
  | lost {i : ι} {p : UpdateRedemptionWebhookStatusParams} (reporting : start.Reporting s i p)
      (tables : s'.db.tables = s.db.tables) (log : s'.db.log = s.db.log)
      (keeps : ∀ j p, start.Reporting s' j p ↔ start.Reporting s j p ∧ j ≠ i)

/-! ## What a step does -/

omit [DecidableEq ι] in
/-- A redemption leaves the other redemptions as they are. -/
theorem Redeemed.mem_redemptions {rt : Runtime} {clock : Time} {past : Tables → Prop}
    {req : RedeemRequest} {resp : RedeemResponse} {e : Commit ι Tables}
    (h : Redeemed rt clock past req e resp) {r : Redemption} (hr : r ∈ e.before.redemptions) :
    r ∈ e.after.redemptions := by
  cases h with
  | refused reason known new hcreated free after =>
    rw [after, tables_refused]
    exact Table.mem_insert_of_mem hr
  | succeeded inOrder response free after =>
    rw [after, tables_succeeded]
    exact Table.mem_insert_of_mem hr

/-- A call that is not a worker leaves the redemptions as they are, except that a resend prepares
its redemption. -/
theorem Transition.mem_redemptions {log : List (Commit ι Tables)} {e : Commit ι Tables}
    {call : Call}
    (h : Transition start log e call) (hcall : ∀ turns, call ≠ .worker turns) {r : Redemption}
    (hr : r ∈ e.before.redemptions) : r ∈ e.after.redemptions ∨ call = .resendWebhook r.id ∧
      ∃ event o, e.after = postgres.applyAll e.before
        [.prepareRedemptionWebhookResend r.id event, .createWebhookOutboxEvent o] := by
  cases h with
  | idle after => exact Or.inl (after ▸ hr)
  | redeem h => exact Or.inl (h.mem_redemptions hr)
  | batchItem hcode h => exact Or.inl (h.mem_redemptions hr)
  | batchStored hkey tally all free after =>
    rw [after, tables_stored]
    exact Or.inl hr
  | @createdBatch req draws b cs h =>
    left
    rw [h.after, Dbms.applyAll_cons, applyAll_map_same Tables.redemptions (fun _ _ => rfl) cs]
    exact hr
  | toggledBatch after | toggledCode after =>
    rw [after]
    exact Or.inl hr
  -- A resend changes the row of its own redemption only.
  | @resent id event r' o row success finished redemptionEvent new outboxEvent outbox after =>
    by_cases hid : r.id = id
    · subst hid
      exact Or.inr ⟨rfl, event, o, after⟩
    · left
      rw [after]
      change r ∈ e.before.redemptions.modify id _ (Redemption.key_prepareResend event)
      exact Table.mem_modify.mpr ⟨r, hr, (if_neg hid).symm⟩
  | imported new after =>
    rw [after, applyAll_map_same Tables.redemptions (fun _ _ => rfl)]
    exact Or.inl hr
  | deleted ids hcall after =>
    rw [after, applyAll_map_same Tables.redemptions (fun _ _ => rfl)]
    exact Or.inl hr
  -- These transitions are made by workers.
  | leased | outboxReported | redemptionReported => exact (hcall _ rfl).elim

/-- A program is not what is left of it after an operation. -/
theorem ne_rest {o : TxOp Slot Query Env} {k : o.Ans Query.Ans Env.Ans → M Result}
    {a : o.Ans Query.Ans Env.Ans} : k a ≠ .op o k := by
  intro he
  have hrest : Rest (some (k a)) (some (.op o k)) := .op o k a
  rw [he] at hrest
  exact rest_wf.asymmetric _ _ hrest hrest

/-- What a worker does next does not depend on what the others do. -/
theorem Start.reporting_resume {d : Database ι} {q : Option (M Result)} (hij : j ≠ i) :
    start.Reporting (s.resume i d q) j p ↔ start.Reporting s j p := by
  simp only [Start.Reporting, Sys.resume, Function.update_of_ne hij]

/-- A worker is about to report only after its report in the outbox. -/
theorem Start.reporting_answer (h : start.run as = some s) {o : TxOp Slot Query Env}
    {k : o.Ans Query.Ans Env.Ans → M Result} {a : o.Ans Query.Ans Env.Ans} {d : Database ι}
    (hp : s.progs i = some (.op o k)) (ha : s.Answers postgres i o a d act)
    (hreport : start.Reporting (s.resume i d (some (k a))) i p) :
    ∃ q, o = .auto (.updateWebhookOutbox q) ∧ HEq a (Except.ok 1 : Except Failure ℕ) := by
  obtain ⟨⟨turns, hcall⟩, k', hk'⟩ := hreport
  have hstep : s.step postgres act = some (s.resume i d (some (k a))) := by
    cases ha with
    | exec hperform => simp only [Sys.step, hp, hperform, Option.map_some]
    | fail hfail => simp only [Sys.step, hp, hfail, Option.map_some]
  rcases Start.reporting_of_step h hstep hcall hk' with
    hsame | ⟨q, event, k'', c, d', hq, rfl, hone, he, -⟩
  · rw [hp] at hsame
    simp only [Sys.resume, Function.update_self, Option.some.injEq] at hsame
    exact absurd hsame.symm ne_rest
  · rw [hp, Option.some.injEq, Prog.op.injEq] at hq
    obtain ⟨rfl, -⟩ := hq
    refine ⟨q, rfl, ?_⟩
    cases ha with
    | exec hperform =>
      rw [hone, Option.some.injEq, Prod.mk.injEq] at hperform
      exact heq_of_eq hperform.1.symm

/-- An operation that is neither of the two reports leaves the workers that are about to report. -/
theorem Start.reporting_keeps (h : start.run as = some s) {o : TxOp Slot Query Env}
    {k : o.Ans Query.Ans Env.Ans → M Result} {a : o.Ans Query.Ans Env.Ans} {d : Database ι}
    (hp : s.progs i = some (.op o k)) (ha : s.Answers postgres i o a d act)
    (hnot : (∀ turns, start.calls i ≠ .worker turns) ∨
      (∀ q, o = .auto (.updateWebhookOutbox q) → ¬ HEq a (Except.ok 1 : Except Failure ℕ)) ∧
        ∀ p, o ≠ .auto (.updateRedemptionWebhookStatus p)) (j : ι)
    (p : UpdateRedemptionWebhookStatusParams) :
    start.Reporting (s.resume i d (some (k a))) j p ↔ start.Reporting s j p := by
  by_cases hij : j = i
  · subst hij
    constructor
    · intro hreport
      rcases hnot with hcall | ⟨houtbox, -⟩
      · obtain ⟨⟨turns, hturns⟩, -⟩ := hreport
        exact absurd hturns (hcall turns)
      · obtain ⟨q, ho, hone⟩ := Start.reporting_answer h hp ha hreport
        exact absurd hone (houtbox q ho)
    · rintro ⟨⟨turns, hturns⟩, k', hk'⟩
      rcases hnot with hcall | ⟨-, hredemption⟩
      · exact absurd hturns (hcall turns)
      · rw [hp, Option.some.injEq, Prog.op.injEq] at hk'
        exact absurd hk'.1 (hredemption p)
  · exact Start.reporting_resume hij

/-- A worker that has made its report in a redemption is not about to report any more. -/
theorem Start.reporting_ends (h : start.run as = some s)
    {k : Except Failure ℕ → M Result} {a : Except Failure ℕ} {d : Database ι}
    (hp : s.progs i = some (.op (.auto (.updateRedemptionWebhookStatus p)) k))
    (ha : s.Answers postgres i (.auto (.updateRedemptionWebhookStatus p)) a d act) (j : ι)
    (p' : UpdateRedemptionWebhookStatusParams) :
    start.Reporting (s.resume i d (some (k a))) j p' ↔ start.Reporting s j p' ∧ j ≠ i := by
  by_cases hij : j = i
  · subst hij
    simp only [ne_eq, not_true, and_false, iff_false]
    intro hreport
    obtain ⟨q, hq, -⟩ := Start.reporting_answer h hp ha hreport
    cases hq
  · rw [Start.reporting_resume hij]
    exact (and_iff_left hij).symm

/-- What an operation of a worker does. -/
theorem Start.webhookStep_worker (h : start.run as = some s) {turns : ℕ}
    (hcall : start.calls i = .worker turns) {o : TxOp Slot Query Env}
    {k : o.Ans Query.Ans Env.Ans → M Result} {a : o.Ans Query.Ans Env.Ans} {d : Database ι}
    (hp : s.progs i = some (.op o k)) (ha : s.Answers postgres i o a d act) :
    WebhookStep start s (s.resume i d (some (k a))) := by
  obtain ⟨traces, ht⟩ := Sys.exists_traced h
  have hrule := Start.worker_rule ht hcall hp
  have hop := ha.opStep
  -- Most operations change neither redemptions nor the outbox.
  have hquiet : d.tables = s.db.tables →
      (∀ q, o = .auto (.updateWebhookOutbox q) → ¬ HEq a (Except.ok 1 : Except Failure ℕ)) →
      (∀ p, o ≠ .auto (.updateRedemptionWebhookStatus p)) →
      WebhookStep start s (s.resume i d (some (k a))) := fun htables houtbox hne =>
    .other (.same (congrArg Tables.redemptions htables) (congrArg Tables.outbox htables))
      (fun r hr => Or.inl (htables ▸ hr)) (Start.reporting_keeps h hp ha (Or.inr ⟨houtbox, hne⟩))
  cases o with
  | begin | query | commit | rollback => exact hrule.elim
  | env e =>
    cases hop.did with
    | env c he => exact hquiet rfl (fun q hq => by cases hq) fun p hp => by cases hp
  | auto q =>
    cases q with
    | leaseWebhookOutboxEvent token =>
      have hne : ∀ p : UpdateRedemptionWebhookStatusParams,
          (TxOp.auto (.leaseWebhookOutboxEvent token) : TxOp Slot Query Env) ≠
            .auto (.updateRedemptionWebhookStatus p) := fun p hp => by cases hp
      cases hop.did with
      | autoFailed => exact hquiet rfl (fun q hq => by cases hq) hne
      | auto c he hl =>
        rcases exec_leaseWebhookOutboxEvent he with rfl | ⟨o, ho, hdue, rfl⟩
        · exact hquiet rfl (fun q hq => by cases hq) hne
        · have hlive : o.Live := by
            unfold WebhookOutbox.due at hdue
            simp only [Bool.and_eq_true, Bool.or_eq_true, decide_eq_true_eq] at hdue
            exact hdue.1.1
          refine .leased (o := o) ho hlive rfl ⟨o, token, _, ho, hlive, rfl, rfl⟩ rfl ?_
          exact Start.reporting_keeps h hp ha (Or.inr ⟨fun q hq => (by cases hq), hne⟩)
    | updateWebhookOutbox q =>
      have hne : ∀ p : UpdateRedemptionWebhookStatusParams,
          (TxOp.auto (.updateWebhookOutbox q) : TxOp Slot Query Env) ≠
            .auto (.updateRedemptionWebhookStatus p) := fun p hp => by cases hp
      cases hop.did with
      | autoFailed => exact hquiet rfl (fun q hq hone => by cases eq_of_heq hone) hne
      | auto c he hl =>
        rcases exec_updateWebhookOutbox (c := c) he with
          rfl | ⟨o, response, ho, hsome, -, -, -, rfl⟩
        · exact hquiet rfl (fun q hq hone => by cases eq_of_heq hone) hne
        · -- The report in the redemption comes next.
          have hid : o.id = q.id := Table.key_of_get? ho
          have hnext : ReportsNext (.updateWebhookOutbox q) k s.db := (Start.asserts h hp).2
          obtain ⟨-, p, k', hk', hredemption, hevent, hstatus⟩ := hnext o ho
          rw [← hid] at ho
          refine .reported (i := i) (p := p) ho hsome
            (?_ : _ = s.db.tables.apply
              (.updateWebhookOutbox o.id ⟨q.status, response, q.scheduledAt⟩))
            hredemption hevent hstatus ⟨⟨turns, hcall⟩, k', ?_⟩ ?_ ?_
          · rw [hid]
            rfl
          · simp only [Sys.resume, Function.update_self, hk']
          · rintro p ⟨-, k'', hk''⟩
            rw [hp] at hk''
            cases hk''
          · exact fun j p hij => Start.reporting_resume hij
    | updateRedemptionWebhookStatus p =>
      have hreporting : start.Reporting s i p := ⟨⟨turns, hcall⟩, k, hp⟩
      have hends := Start.reporting_ends h hp ha
      cases hop.did with
      | autoFailed => exact .lost hreporting rfl rfl hends
      | auto c he hl =>
        rcases exec_updateRedemptionWebhookStatus (c := c) he with
          ⟨rfl, hmissed⟩ | ⟨r, response, hr, hevent, -, -, rfl⟩
        · exact .missed hreporting hmissed rfl hends
        · exact .settled hreporting hr hevent rfl rfl hends
    | getRedemptionByID id =>
      cases hop.did with
      | autoFailed => exact hquiet rfl (fun q hq => by cases hq) fun p hp => by cases hp
      | auto c he hl =>
        obtain rfl := exec_getRedemptionByID (c := c) he
        exact hquiet rfl (fun q hq => by cases hq) fun p hp => by cases hp
    | getBatchByID id =>
      cases hop.did with
      | autoFailed => exact hquiet rfl (fun q hq => by cases hq) fun p hp => by cases hp
      | auto c he hl =>
        obtain rfl := exec_getBatchByID (c := c) he
        exact hquiet rfl (fun q hq => by cases hq) fun p hp => by cases hp
    | _ => exact hrule.elim

/-- What a step does to redemptions, to the outbox, and to the workers that are about to report. -/
theorem Start.webhookStep (h : start.run as = some s) (hstep : s.step postgres act = some s') :
    WebhookStep start s s' := by
  rcases Sys.step_cases hstep with ⟨i, o, k, a, d, hp, ha, rfl⟩ | ⟨i, p, -, hp, rfl⟩ | ⟨n, -, rfl⟩
  · -- An operation: of a worker, or of a call that has no report to make.
    by_cases hcall : ∃ turns, start.calls i = .worker turns
    · obtain ⟨turns, hcall⟩ := hcall
      exact Start.webhookStep_worker h hcall hp ha
    · have hnot : ∀ turns, start.calls i ≠ .worker turns :=
        fun turns hturns => hcall ⟨turns, hturns⟩
      have hkeeps := Start.reporting_keeps h hp ha (Or.inl hnot)
      rcases Start.op_effect h hp ha.opStep with ⟨htables, -⟩ | ⟨e, hi, hbefore, hafter, hlog, he⟩
      · exact .other (.same (congrArg Tables.redemptions htables) (congrArg Tables.outbox htables))
          (fun r hr => Or.inl (htables ▸ hr)) hkeeps
      · have heffect := he.webhooks hnot
        rw [hbefore, hafter] at heffect
        refine .other heffect (fun r hr => ?_) hkeeps
        rw [← hbefore] at hr
        rcases he.mem_redemptions hnot hr with hr' | ⟨hcall, event, o, hwrites⟩
        · exact Or.inl (hafter ▸ hr')
        · exact Or.inr ⟨e, event, o, hlog, hi ▸ hcall, hwrites⟩
  · -- A program that dies may have had a report to make, which is lost.
    by_cases hreport : ∃ p', start.Reporting s i p'
    · obtain ⟨p', hp'⟩ := hreport
      refine .lost hp' rfl rfl fun j q => ?_
      by_cases hij : j = i
      · subst hij
        simp [Start.Reporting, Sys.resume]
      · rw [Start.reporting_resume hij]
        exact (and_iff_left hij).symm
    · refine .other (.same rfl rfl) (fun r hr => Or.inl hr) fun j q => ?_
      by_cases hij : j = i
      · subst hij
        constructor
        · rintro ⟨-, k, hk⟩
          simp [Sys.resume] at hk
        · exact fun hq => absurd ⟨q, hq⟩ hreport
      · exact Start.reporting_resume hij
  · exact .other (.same rfl rfl) (fun r hr => Or.inl hr) fun j q => Iff.rfl

/-! ## Reports that are not overtaken -/

/-- At some step of a run a lease was granted on an event while a worker was about to report an
earlier delivery of it in the redemption. -/
def Start.Overtaken (start : Start ι) (as : List (Action ι Choice)) : Prop :=
  ∃ (as₁ : List (Action ι Choice)) (act : Action ι Choice) (as₂ : List (Action ι Choice))
    (s₁ s₂ : State ι) (e : Commit ι Tables) (event : WebhookOutbox) (i : ι)
    (p : UpdateRedemptionWebhookStatusParams), as = as₁ ++ act :: as₂ ∧ start.run as₁ = some s₁ ∧
      s₁.step postgres act = some s₂ ∧ s₂.db.log = s₁.db.log ++ [e] ∧ Leases e event ∧
      start.Reporting s₁ i p ∧ p.eventId = event.eventId

/-- A run that goes on stays overtaken. -/
theorem Start.Overtaken.append (h : start.Overtaken as) (bs : List (Action ι Choice)) :
    start.Overtaken (as ++ bs) := by
  obtain ⟨as₁, act, as₂, s₁, s₂, e, event, i, p, rfl, hrest⟩ := h
  exact ⟨as₁, act, as₂ ++ bs, s₁, s₂, e, event, i, p, by simp, hrest⟩

/-- The workers that are about to report agree with the rows of their events, which are not leased,
and no two of them report on one event. -/
structure Start.Fenced (start : Start ι) (s : State ι) : Prop where
  agrees : ∀ i p, start.Reporting s i p → ∃ o ∈ s.db.tables.outbox, o.eventId = p.eventId ∧
    o.redemptionId = p.id ∧ o.leaseToken = none ∧ p.webhookStatus = redemptionStatus o.status
  unique : ∀ i j p p', start.Reporting s i p → start.Reporting s j p' → p.eventId = p'.eventId →
    i = j

/-- Nobody is about to report at the start. -/
theorem Start.not_reporting_start : ¬ start.Reporting start.state i p := by
  rintro ⟨⟨turns, hcall⟩, k, hk⟩
  obtain ⟨q, rest, event, htrace, -⟩ := Start.worker_rule .start hcall hk
  cases htrace

/-- A call that is not a worker leaves the rows of events, and may insert others. -/
theorem WebhookEffect.mem_outbox {T T' : Tables} (h : WebhookEffect T T') {o : WebhookOutbox}
    (ho : o ∈ T.outbox) : o ∈ T'.outbox := by
  cases h with
  | same redemptions outbox | redeemed new redemptions outbox => exact outbox ▸ ho
  | announced new redemptions newEvent outbox => exact outbox ▸ Table.mem_insert_of_mem ho
  | resent row finished redemptions newEvent outboxEvent outbox =>
    exact outbox ▸ Table.mem_insert_of_mem ho

/-- A row of the outbox after a lease. -/
theorem mem_outbox_leased {T : Tables} (id : ℕ) (token : String) (expires : Time)
    {o : WebhookOutbox} (h : o ∈ T.outbox) : (if key o = id then o.lease token expires else o) ∈
      (T.apply (.leaseWebhookOutboxEvent id token expires)).outbox := by
  change _ ∈ T.outbox.modify id _ (WebhookOutbox.key_lease token expires)
  exact Table.mem_modify.mpr ⟨o, h, rfl⟩

/-- A row of the outbox after a report. -/
theorem mem_outbox_reported {T : Tables} (id : ℕ) (report : OutboxReport) {o : WebhookOutbox}
    (h : o ∈ T.outbox) : (if key o = id then o.update report else o) ∈
      (T.apply (.updateWebhookOutbox id report)).outbox := by
  change _ ∈ T.outbox.modify id _ (WebhookOutbox.key_update report)
  exact Table.mem_modify.mpr ⟨o, h, rfl⟩

/-- A step that does not overtake a report keeps the reports fenced. -/
theorem Start.Fenced.step (hf : start.Fenced s) (h : start.run as = some s)
    (hstep : s.step postgres act = some s')
    (hnot : ∀ e event i p, s'.db.log = s.db.log ++ [e] → Leases e event → start.Reporting s i p →
      p.eventId ≠ event.eventId) : start.Fenced s' := by
  have hint : s.db.tables.Integrity := (Start.history h).integrity (Or.inl rfl)
  -- A report that is still to be made agrees with its row, if the row has not changed.
  have hold : ∀ j p, start.Reporting s j p → (∀ o ∈ s.db.tables.outbox, o.leaseToken = none →
      o.eventId = p.eventId → o ∈ s'.db.tables.outbox) →
      ∃ o ∈ s'.db.tables.outbox, o.eventId = p.eventId ∧ o.redemptionId = p.id ∧
        o.leaseToken = none ∧ p.webhookStatus = redemptionStatus o.status := by
    intro j p hp hkept
    obtain ⟨o, ho, hevent, hredemption, htoken, hstatus⟩ := hf.agrees j p hp
    exact ⟨o, hkept o ho htoken hevent, hevent, hredemption, htoken, hstatus⟩
  cases Start.webhookStep h hstep with
  | other effect rows keeps =>
    refine ⟨fun j p hp => ?_, fun j j' p p' hp hp' he => ?_⟩
    · exact hold j p ((keeps j p).mp hp) fun o ho _ _ => effect.mem_outbox ho
    · exact hf.unique j j' p p' ((keeps j p).mp hp) ((keeps j' p').mp hp') he
  | @leased e o token expires row live log lease tables keeps =>
    refine ⟨fun j p hp => ?_, fun j j' p p' hp hp' he => ?_⟩
    · have hp₀ := (keeps j p).mp hp
      refine hold j p hp₀ fun o' ho' _ hevent => ?_
      have hne : key o' ≠ o.id := by
        intro hid
        obtain rfl : o' = o := Table.key_injective ho' (Table.mem_of_get? row) hid
        exact hnot e _ j p log lease hp₀ hevent.symm
      have hmem := mem_outbox_leased o.id token expires ho'
      rwa [if_neg hne, ← tables] at hmem
    · exact hf.unique j j' p p' ((keeps j p).mp hp) ((keeps j' p').mp hp') he
  | @reported i p o report row leased tables redemption event status reporting before keeps =>
    have hmem : o ∈ s.db.tables.outbox := Table.mem_of_get? row
    -- No other worker is about to report on the event, because its row is leased.
    have hother : ∀ j p', start.Reporting s j p' → p'.eventId ≠ o.eventId := by
      intro j p' hp' he
      obtain ⟨o', ho', hevent, -, htoken, -⟩ := hf.agrees j p' hp'
      obtain rfl : o' = o := hint.outboxEvent o' ho' o hmem (hevent.trans he)
      rw [htoken] at leased
      cases leased
    have hself : ∀ p', start.Reporting s' i p' → p' = p := fun p' hp' => hp'.eq reporting
    refine ⟨fun j p' hp' => ?_, fun j j' p₁ p₂ hp₁ hp₂ he => ?_⟩
    · by_cases hij : j = i
      · subst hij
        obtain rfl := hself p' hp'
        refine ⟨o.update report, ?_, event.symm, redemption.symm, rfl, status⟩
        have hrow := mem_outbox_reported o.id report hmem
        have hself : key o = o.id := rfl
        rwa [if_pos hself, ← tables] at hrow
      · refine hold j p' ((keeps j p' hij).mp hp') fun o' ho' htoken _ => ?_
        have hne : key o' ≠ o.id := by
          intro hid
          obtain rfl : o' = o := Table.key_injective ho' hmem hid
          rw [htoken] at leased
          cases leased
        have hrow := mem_outbox_reported o.id report ho'
        rwa [if_neg hne, ← tables] at hrow
    · by_cases hj : j = i
      · by_cases hj' : j' = i
        · exact hj.trans hj'.symm
        · subst hj
          obtain rfl := hself p₁ hp₁
          exact absurd (he.symm.trans event) (hother j' p₂ ((keeps j' p₂ hj').mp hp₂))
      · by_cases hj' : j' = i
        · subst hj'
          obtain rfl := hself p₂ hp₂
          exact absurd (he.trans event) (hother j p₁ ((keeps j p₁ hj).mp hp₁))
        · exact hf.unique j j' p₁ p₂ ((keeps j p₁ hj).mp hp₁) ((keeps j' p₂ hj').mp hp₂) he
  | settled reporting row event status tables keeps | missed reporting event tables keeps
  | lost reporting tables log keeps =>
    refine ⟨fun j p hp => ?_, fun j j' p p' hp hp' he => ?_⟩
    · exact hold j p ((keeps j p).mp hp).1 fun o ho _ _ => by rwa [tables]
    · exact hf.unique j j' p p' ((keeps j p).mp hp).1 ((keeps j' p').mp hp').1 he

/-- In a run in which no report is overtaken, the reports are fenced. -/
theorem Start.fenced (h : start.run as = some s) (hnot : ¬ start.Overtaken as) :
    start.Fenced s := by
  induction as using List.reverseRecOn generalizing s with
  | nil =>
    obtain rfl : start.state = s := Option.some.inj h
    exact ⟨fun i p hp => absurd hp Start.not_reporting_start,
      fun i j p p' hp => absurd hp Start.not_reporting_start⟩
  | append_singleton as act ih =>
    have hrun := h
    rw [Start.run, Sys.run_snoc, Option.bind_eq_some_iff] at h
    obtain ⟨s₁, hs₁, hstep⟩ := h
    refine (ih hs₁ fun ho => hnot (ho.append [act])).step hs₁ hstep ?_
    intro e event i p hlog hlease hp he
    exact hnot ⟨as, act, [], s₁, s, e, event, i, p, rfl, hs₁, hstep, hlog, hlease, hp, he⟩

/-! ## Two workers -/

omit [DecidableEq ι] in
/-- A lease changes the row of its event. -/
theorem Leases.changes {e : Commit ι Tables} {event : WebhookOutbox} (h : Leases e event) :
    ∃ o ∈ e.before.outbox, o ∉ e.after.outbox := by
  obtain ⟨o, token, expires, hrow, -, -, hafter⟩ := h
  have ho : o ∈ e.before.outbox := Table.mem_of_get? hrow
  refine ⟨o, ho, fun hmem => ?_⟩
  rw [hafter] at hmem
  change o ∈ e.before.outbox.modify o.id _ (WebhookOutbox.key_lease token expires) at hmem
  obtain ⟨o₁, ho₁, heq⟩ := Table.mem_modify.mp hmem
  split_ifs at heq with hk
  · obtain rfl : o₁ = o := Table.key_injective ho₁ ho hk
    have hattempts := congrArg WebhookOutbox.attempts heq
    simp only [WebhookOutbox.lease] at hattempts
    omega
  · rw [← heq] at hk
    exact hk rfl

/-- It takes two workers to overtake a report. -/
theorem Start.Overtaken.two_workers (h : start.Overtaken as) : ∃ i j turns turns', i ≠ j ∧
    start.calls i = .worker turns ∧ start.calls j = .worker turns' := by
  obtain ⟨as₁, act, as₂, s₁, s₂, e, event, i, p, -, hs₁, hstep, hlog, hlease, hp, -⟩ := h
  obtain ⟨⟨turns, hturns⟩, k, hk⟩ := hp
  obtain ⟨o₀, hbefore₀, hafter₀⟩ := hlease.changes
  have hsame : s₁.db.log ≠ s₁.db.log ++ [e] := fun he => by simpa using congrArg List.length he
  rcases Sys.step_cases hstep with ⟨j, o, k', a, d, hj, ha, rfl⟩ | ⟨j, p', -, hj, rfl⟩ | ⟨n, -, rfl⟩
  · rcases Start.op_effect hs₁ hj ha.opStep with ⟨-, hquiet⟩ | ⟨e', -, hbefore, hafter, hlog', he⟩
    · exact absurd (hquiet.symm.trans hlog) hsame
    have hcommit : d.log = s₁.db.log ++ [e] := hlog
    rw [hcommit, List.append_cancel_left_eq, List.cons.injEq] at hlog'
    obtain ⟨rfl, -⟩ := hlog'
    by_cases hcall : ∃ turns', start.calls j = .worker turns'
    · obtain ⟨turns', hturns'⟩ := hcall
      refine ⟨i, j, turns, turns', ?_, hturns, hturns'⟩
      rintro rfl
      rw [hk, Option.some.injEq, Prog.op.injEq] at hj
      obtain ⟨rfl, -⟩ := hj
      obtain ⟨traces, ht⟩ := Sys.exists_traced hs₁
      -- A report in a redemption does not change the outbox.
      have hout : d.tables.outbox = s₁.db.tables.outbox := by
        cases worker_effect (Start.worker_rule ht hturns hk) ha.opStep with
        | nothing tables => rw [tables]
        | redemptionReported row event tables => rw [tables]; rfl
      rw [hbefore] at hbefore₀
      rw [hafter, hout] at hafter₀
      exact hafter₀ hbefore₀
    · have hnot : ∀ turns', start.calls j ≠ .worker turns' := fun t ht => hcall ⟨t, ht⟩
      exact absurd ((he.webhooks hnot).mem_outbox hbefore₀) hafter₀
  · exact absurd hlog hsame
  · exact absurd hlog hsame

end CdkSystem
