import CdkSystem.Proof.Leasing
import CdkSystem.Proof.Rules

/-!
# The worker keeps to its specification

A worker reports only on an event that it has leased. The report in the outbox names the lease's
token, and the report in the redemption comes after one that took effect, so what it says agrees
with the outbox (`report_wp`).

Between its operations a worker has no open transaction, so what it knows is only what stays true
whatever others do: that the event was leased to it at some time with its token (`HasLeased`), and
that the attempts in its copy of the event are those of that lease. Everything else about the event
may have changed when the worker reports.
-/

namespace CdkSystem

open RowLock Relational

variable {ι : Type} [DecidableEq ι] {start : Start ι} {i : ι} {d d' : Database ι}
  {event : WebhookOutbox}

/-! ## Leased events -/

/-- An event was leased by a commit. -/
def HasLeased (event : WebhookOutbox) (d : Database ι) : Prop := ∃ e ∈ d.log, Leases e event

omit [DecidableEq ι] in
/-- What was leased stays leased by that commit. -/
theorem HasLeased.mono (h : HasLeased event d) (hlog : d.log <+: d'.log) : HasLeased event d' := by
  obtain ⟨e, he, hl⟩ := h
  exact ⟨e, hlog.subset he, hl⟩

omit [DecidableEq ι] in
/-- A row that there was after a commit has a later version. -/
theorem Start.Inv.outbox_later [DecidableEq ι] (hinv : start.Inv d) {e : Commit ι Tables}
    (he : e ∈ d.log) {id : ℕ} {o : WebhookOutbox} (ho : e.after.outbox.get? id = some o) :
    ∃ o', d.tables.outbox.get? id = some o' ∧ o.Later o' :=
  (hinv.history.after (R := Evolves) Evolves.refl
    (fun _ _ _ _ he hT => hT.trans he.evolves) he).outbox id o ho

/-- The row of a leased event is a later version of it. -/
theorem HasLeased.later (h : HasLeased event d) (hinv : start.Inv d) :
    ∃ o, d.tables.outbox.get? event.id = some o ∧ event.Later o := by
  obtain ⟨e, he, hl⟩ := h
  exact hinv.outbox_later he hl.row

/-- `leaseEvent` returns an event that it has leased. -/
theorem leaseEvent_wp {turns : ℕ} (hcall : start.calls i = .worker turns) (hinv : start.Inv d) :
    start.Wp i leaseEvent
      (fun r d' => start.Inv d' ∧ ∀ event, r = some event → HasLeased event d') d := by
  unfold leaseEvent
  refine Outline.Wp.bind (wp_ask hinv fun _ token d₁ _ ha _ => ?_)
  refine Outline.Wp.bind (Go.wp_auto ha.inv (fun c e he => ?_) (fun _ => trivial)
    (fun d₂ hl => .ret ⟨hl.after.inv, by simp⟩) fun c e d₂ he hd => ?_)
  · rw [hcall]
    rcases exec_leaseWebhookOutboxEvent he with rfl | ⟨o, ho, hdue, rfl⟩
    · exact .idle rfl
    · refine .leased ⟨o, token, _, ho, ?_, rfl, rfl⟩
      simp only [WebhookOutbox.due, Bool.and_eq_true, Bool.or_eq_true, decide_eq_true_eq] at hdue
      exact hdue.1.1
  · refine .ret ⟨hd.after.inv, fun event hevent => ?_⟩
    rcases exec_leaseWebhookOutboxEvent he with rfl | ⟨o, ho, hdue, rfl⟩
    · cases hevent
    · cases hevent
      have hmem := List.mem_append_right (d₁.ownLog i) (List.mem_singleton_self
        (⟨i, d₁.clock, d₁.tables, postgres.applyAll d₁.tables
          [.leaseWebhookOutboxEvent o.id token (d₁.clock + leaseTime)]⟩ : Commit ι Tables))
      rw [← hd.log] at hmem
      refine ⟨_, (List.mem_filter.mp hmem).1, o, token, _, ho, ?_, rfl, rfl⟩
      simp only [WebhookOutbox.due, Bool.and_eq_true, Bool.or_eq_true, decide_eq_true_eq] at hdue
      exact hdue.1.1

/-! ## Reports -/

/-- The report on an event in its redemption makes a transition. -/
theorem reportRedemption_wp {turns : ℕ} {status : WebhookStatus} {detail : List UInt8}
    {o : WebhookOutbox} (hcall : start.calls i = .worker turns) (hinv : start.Inv d)
    (h : Reportable ⟨status, detail, event.redemptionId, event.eventId⟩ o d) :
    start.Wp i (reportRedemption event status detail) (fun _ d' => start.Inv d') d := by
  unfold reportRedemption
  refine Outline.Wp.bind (Go.wp_auto hinv (fun c e he => ?_) (fun _ => ⟨o, h⟩)
    (fun d₁ hl => .ret hl.after.inv) fun c e d₁ _ hd => .ret hd.after.inv)
  rw [hcall]
  rcases exec_updateRedemptionWebhookStatus he with ⟨rfl, -⟩ | ⟨r, response, hr, hevent, -, -, rfl⟩
  · exact .idle rfl
  · have hrid : r.id = event.redemptionId := Table.key_of_get? hr
    refine .redemptionReported (r := r) (o := o) ⟨status, response⟩ (hrid ▸ hr) h.row
      (h.redemption.trans hrid.symm) (by rw [hevent, h.event]) h.status
      (fun hne => (h.finished hne).1) ?_
    rw [hrid]
    rfl

/-- A report may be made on an event. -/
structure Start.MayReport (start : Start ι) (event : WebhookOutbox) (p : UpdateWebhookOutboxParams)
    (d : Database ι) : Prop where
  leased : HasLeased event d
  id : p.id = event.id
  token : p.leaseToken = event.leaseToken
  finishes : p.status ∈ [WebhookStatus.success, .failed, .deadLetter]
  retries : p.status = .failed → event.attempts < start.rt.config.maxAttempts

omit [DecidableEq ι] in
/-- What a redemption is told about a finished event. -/
theorem redemptionStatus_mem {status : WebhookStatus}
    (h : status ∈ [WebhookStatus.success, .failed, .deadLetter]) :
    redemptionStatus status ∈ [WebhookStatus.pending, .success, .deadLetter] ∧
      (redemptionStatus status ≠ .pending →
        redemptionStatus status = status ∧ (status = .success ∨ status = .deadLetter)) := by
  cases status <;> simp [redemptionStatus] at h ⊢

/-- After a report in the outbox that took effect, the one in the redemption agrees with it. -/
theorem reportable {e : Commit ι Tables} {o : WebhookOutbox} (report : OutboxReport)
    (detail : List UInt8) (hinv : start.Inv d) (he : e ∈ d.log)
    (ho : e.before.outbox.get? event.id = some o) (hlater : event.Later o)
    (hafter : e.after = e.before.apply (.updateWebhookOutbox event.id report))
    (hfinishes : report.status ∈ [WebhookStatus.success, .failed, .deadLetter]) :
    ∃ o', Reportable ⟨redemptionStatus report.status, detail, event.redemptionId, event.eventId⟩ o'
      d := by
  have hrow : e.after.outbox.get? event.id = some (o.update report) := by
    have : (e.before.outbox.modify event.id (WebhookOutbox.update report)
        (WebhookOutbox.key_update report)).get? event.id = some (o.update report) := by
      rw [Table.get?_modify_self, ho]
      rfl
    rw [hafter]
    exact this
  obtain ⟨o', ho', hl⟩ := hinv.outbox_later he hrow
  have hid : o'.id = event.id := Table.key_of_get? ho'
  refine ⟨o', hid ▸ ho', hl.redemptionId.trans hlater.redemptionId,
    hl.eventId.trans hlater.eventId, (redemptionStatus_mem hfinishes).1, fun hne => ?_⟩
  obtain ⟨hstatus, hover⟩ := (redemptionStatus_mem hfinishes).2 hne
  have hover' : (o.update report).Over := ⟨hover, rfl⟩
  have hkept : OverKept e.after d.tables :=
    hinv.history.after (R := OverKept) (fun _ => .of_eq rfl)
      (fun _ _ _ _ he hT => hT.trans he.overKept) he
  have := hkept _ _ hrow hover'
  rw [ho', Option.some.injEq] at this
  exact ⟨this ▸ hstatus.symm, this ▸ hover'⟩

/-- A report makes transitions: the one of the outbox row, and then the one of the redemption. -/
theorem reportEvent_wp {turns : ℕ} {p : UpdateWebhookOutboxParams} {status : WebhookStatus}
    (hcall : start.calls i = .worker turns) (hinv : start.Inv d) (h : start.MayReport event p d)
    (hstatus : status = redemptionStatus p.status) :
    start.Wp i (reportEvent event p status) (fun _ d' => start.Inv d') d := by
  subst hstatus
  obtain ⟨o, ho, hlater⟩ := h.leased.later hinv
  unfold reportEvent
  rw [Go.run_auto]
  refine Outline.Wp.auto postgres_lawful start.outline_lawful hinv
    (fun K => ⟨fun c e he => ?_, fun o' ho' => ⟨h.finishes, _, _, rfl, ?_⟩⟩)
    (fun d₁ hl => .ret hl.after.inv) fun c e d₁ he hd => ?_
  · -- Without a row under the token nothing changes; otherwise the lease is still the latest one.
    rw [hcall]
    rcases exec_updateWebhookOutbox he with rfl | ⟨o, response, ho, hsome, htoken, -, -, rfl⟩
    · exact .idle rfl
    · refine .outboxReported ⟨p.status, response, p.scheduledAt⟩
        h.leased (h.id ▸ ho) (htoken.trans h.token) hsome h.finishes h.retries ?_
      rw [← h.id]
      rfl
  · rw [h.id, ho, Option.some.injEq] at ho'
    subst ho'
    exact ⟨hlater.redemptionId.symm, hlater.eventId.symm, rfl⟩
  · -- The report in the redemption follows only a report that took effect.
    rcases exec_updateWebhookOutbox (c := c) he with rfl | ⟨o', response, ho', -, -, -, -, rfl⟩
    · exact .ret hd.after.inv
    · have hmem := List.mem_append_right (d.ownLog i) (List.mem_singleton_self
        (⟨i, d.clock, d.tables, postgres.applyAll d.tables [.updateWebhookOutbox p.id
          ⟨p.status, response, p.scheduledAt⟩]⟩ : Commit ι Tables))
      rw [← hd.log] at hmem
      obtain ⟨o'', ho''⟩ := reportable ⟨p.status, response, p.scheduledAt⟩
        p.lastResponse hd.after.inv (List.mem_filter.mp hmem).1 ho hlater
        (by rw [← h.id]; rfl) h.finishes
      exact reportRedemption_wp hcall hd.after.inv ho''

/-- `markSuccess` makes transitions, which are those of its report. -/
theorem markSuccess_wp {turns : ℕ} {detail : List UInt8} (hcall : start.calls i = .worker turns)
    (hinv : start.Inv d) (h : HasLeased event d) :
    start.Wp i (markSuccess event detail) (fun _ d' => start.Inv d') d :=
  reportEvent_wp (p := ⟨.success, detail, none, event.id, event.leaseToken⟩) hcall hinv
    ⟨h, rfl, rfl, by simp, fun hf => by cases hf⟩ rfl

/-- `markFailed` makes transitions, which are those of its report. -/
theorem markFailed_wp {turns : ℕ} {detail : List UInt8} {retry : Bool}
    (hcall : start.calls i = .worker turns) (hinv : start.Inv d) (h : HasLeased event d) :
    start.Wp i (markFailed start.rt event detail retry) (fun _ d' => start.Inv d') d := by
  unfold markFailed
  refine Outline.Wp.bind (wp_ask hinv fun _ now d₁ _ ha _ => ?_)
  refine reportEvent_wp (p := ⟨failedStatus start.rt event retry, detail, some _, event.id,
    event.leaseToken⟩) hcall ha.inv ⟨h.mono ha.le.log, rfl, rfl, ?_, fun hf => ?_⟩ rfl
  · simp only [failedStatus]
    split_ifs <;> simp
  · simp only [failedStatus] at hf
    split_ifs at hf with hretry
    exact hretry.2

/-! ## The loop -/

/-- `deliverEvent` makes transitions: it reads, sends, and reports at most once. -/
theorem deliverEvent_wp {turns : ℕ} (hcall : start.calls i = .worker turns) (hinv : start.Inv d)
    (h : HasLeased event d) :
    start.Wp i (deliverEvent start.rt event) (fun _ d' => start.Inv d') d := by
  unfold deliverEvent
  refine Outline.Wp.bind (Go.wp_read hinv
    (fun ctx c e he => by rw [exec_getRedemptionByID he]) (fun _ => trivial) fun r d₁ ha _ => ?_)
  have h₁ := h.mono ha.le.log
  rcases r with _ | (_ | redemption)
  · exact markFailed_wp hcall ha.inv h₁
  · exact markFailed_wp hcall ha.inv h₁
  dsimp only
  cases redemption.batchId with
  | none => exact markFailed_wp hcall ha.inv h₁
  | some batchId =>
    refine Outline.Wp.bind (Go.wp_read ha.inv
      (fun ctx c e he => by rw [exec_getBatchByID he]) (fun _ => trivial) fun r d₂ ha₂ _ => ?_)
    have h₂ := h₁.mono ha₂.le.log
    rcases r with _ | (_ | b)
    · exact markFailed_wp hcall ha₂.inv h₂
    · exact markFailed_wp hcall ha₂.inv h₂
    refine Outline.Wp.bind (wp_ask ha₂.inv fun _ delivery d₃ _ ha₃ _ => ?_)
    have h₃ := h₂.mono ha₃.le.log
    unfold markDelivered
    split_ifs
    · exact markSuccess_wp hcall ha₃.inv h₃
    · exact markFailed_wp hcall ha₃.inv h₃

/-- `processBatch` makes transitions: those of its leases, and of the events that it delivers. -/
theorem processBatch_wp {turns : ℕ} (hcall : start.calls i = .worker turns) :
    ∀ {n : ℕ} {d : Database ι}, start.Inv d →
      start.Wp i (processBatch start.rt n) (fun _ d' => start.Inv d') d := by
  intro n
  induction n with
  | zero => exact fun hinv => .ret hinv
  | succ n ih =>
    intro d hinv
    rw [processBatch]
    refine Outline.Wp.bind ((leaseEvent_wp hcall hinv).mono fun r d₁ ⟨hinv₁, hr⟩ => ?_)
    cases r with
    | none => exact .ret hinv₁
    | some event =>
      exact Outline.Wp.bind ((deliverEvent_wp hcall hinv₁ (hr event rfl)).mono
        fun _ d₂ hinv₂ => ih hinv₂)

end CdkSystem
