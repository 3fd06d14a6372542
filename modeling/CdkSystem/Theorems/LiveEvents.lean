import CdkSystem.Proof.Reporting

/-!
# One live event per redemption

When the service starts without redemptions, redemptions and outbox agree in every state of every
run (`Tables.Believable`), and a redemption shows a success only after a target has accepted its
current event (`Start.success_acknowledged`).

`Tables.Believable` is an invariant of the tables alone, kept by every transition: an event that can
still be delivered is the current one of its redemption, and a redemption shows its webhook as
finished only with an event that is finished in the same way. That the target has accepted the event
is not in the tables. It is a fact about what the workers were answered (`Start.Acknowledged`), and
it is carried along the run: the only step that makes an event successful is a worker's report, and
a worker reports a success only after an answer with a 2xx status.
-/

namespace CdkSystem

open RowLock Relational

variable {ι : Type} [DecidableEq ι] {start : Start ι} {as bs : List (Action ι Choice)} {s : State ι}
  {event : String}

/-- At some step of a run, a request for the event was answered with a status from 200 to 299. -/
def Start.Acknowledged (start : Start ι) (as : List (Action ι Choice)) (event : String) : Prop :=
  ∃ (as₁ : List (Action ι Choice)) (i : ι) (c : Choice) (as₂ : List (Action ι Choice))
    (s₁ : State ι) (url secret : String) (body : EventBody) (k : Delivery → M Result) (status : ℕ)
    (bytes : List UInt8), as = as₁ ++ .exec i c :: as₂ ∧ start.run as₁ = some s₁ ∧
      s₁.progs i = some (.op (.env (.deliver url secret body)) k) ∧ body.eventId = event ∧
      c.delivery = .response status bytes ∧ 200 ≤ status ∧ status < 300

/-- What was acknowledged during a run stays so in every longer run. -/
theorem Start.Acknowledged.append (h : start.Acknowledged as event) (bs : List (Action ι Choice)) :
    start.Acknowledged (as ++ bs) event := by
  obtain ⟨as₁, i, c, as₂, s₁, url, secret, body, k, status, bytes, rfl, hrest⟩ := h
  exact ⟨as₁, i, c, as₂ ++ bs, s₁, url, secret, body, k, status, bytes, by simp, hrest⟩

/-- An acceptance in a trace is an acknowledgement in the run. -/
theorem Accepted.acknowledged {traces : Traces ι Slot Query Env Query.Ans Env.Ans} {i : ι}
    (ht : Sys.Traced postgres start.state as s traces) (h : Accepted (traces i) event) :
    start.Acknowledged as event := by
  obtain ⟨url, secret, body, status, bytes, hmem, hbody, hlow, hhigh⟩ := h
  obtain ⟨as₁, act, as₂, s₁, k, d, rfl, hrun, hp, ha⟩ := ht.happened hmem
  cases ha with
  | @exec c hperform =>
    have hdelivery : c.delivery = .response status bytes := by
      simp only [Db.perform, postgres, Env.answer, Option.map_some, Option.some.injEq,
        Prod.mk.injEq] at hperform
      exact hperform.1
    exact ⟨as₁, i, c, as₂, s₁, url, secret, body, k, status, bytes, rfl, hrun, hp, hbody, hdelivery,
      hlow, hhigh⟩
  | fail hfail => cases hfail

/-- The successes of some tables have events that were acknowledged in a run. -/
def Start.Acknowledges (start : Start ι) (as : List (Action ι Choice)) (T : Tables) : Prop :=
  ∀ r ∈ T.redemptions, r.webhookStatus = .success →
    ∃ event, r.eventId = some event ∧ start.Acknowledged as event

/-- A call that is not a worker makes no success. -/
theorem Start.Acknowledges.webhooks {T T' : Tables} (h : start.Acknowledges as T)
    (he : WebhookEffect T T') : start.Acknowledges as T' := by
  unfold Start.Acknowledges
  cases he with
  | same redemptions outbox =>
    rw [redemptions]
    exact h
  | redeemed new redemptions outbox status event =>
    rw [redemptions]
    refine forall_mem_insert h fun hsuccess => ?_
    rw [status] at hsuccess
    cases hsuccess
  | announced new redemptions newEvent outbox status event row =>
    rw [redemptions]
    refine forall_mem_insert h fun hsuccess => ?_
    rw [status] at hsuccess
    cases hsuccess
  | resent row finished redemptions newEvent outboxEvent outbox event =>
    rw [redemptions]
    refine forall_mem_modify _ h fun r _ hsuccess => ?_
    cases hsuccess

/-- A worker makes a success only of an event that was accepted. -/
theorem Start.Acknowledges.worker {d d' : Database ι} {o : TxOp Slot Query Env} {trace : CallTrace}
    (h : start.Acknowledges as d.tables) (he : WorkerEffect d d' o) (hrule : WorkerRule trace o)
    (hack : ∀ event, Accepted trace event → start.Acknowledged as event) :
    start.Acknowledges as d'.tables := by
  unfold Start.Acknowledges
  -- Only a report in a redemption can make it show a success.
  cases he with
  | nothing tables =>
    rw [tables]
    exact h
  | leased row due tables =>
    rw [tables]
    exact h
  | reported row leased token tables =>
    rw [tables]
    exact h
  | @redemptionReported p r response row event tables =>
    obtain ⟨q, rest, leased, rfl, hmay, rfl⟩ := hrule
    rw [tables]
    intro r' hr' hsuccess
    obtain ⟨r₀, hr₀, rfl⟩ := mem_redemptions_reported hr'
    split_ifs at hsuccess ⊢ with hk
    · obtain rfl : r₀ = r :=
        Table.key_injective hr₀ (Table.mem_of_get? row) (hk.trans (Table.key_of_get? row).symm)
      have hstatus : redemptionStatus q.status = .success := hsuccess
      have hq : q.status = .success := by
        unfold redemptionStatus at hstatus
        split_ifs at hstatus
        exact hstatus
      -- The report in the outbox was a success, so the target has accepted the event before.
      obtain ⟨url, secret, body, status, bytes, hmem, hbody⟩ := hmay.accepted hq
      exact ⟨_, event, hack _ ⟨url, secret, body, status, bytes, List.mem_cons_of_mem _ hmem,
        hbody⟩⟩
    · exact h r₀ hr₀ hsuccess

/-- A redemption shows a success only after its current event was acknowledged. -/
theorem Start.success_acknowledged (h0 : start.tables.redemptions = ∅) (h : start.run as = some s) :
    start.Acknowledges as s.db.tables := by
  induction as using List.reverseRecOn generalizing s with
  | nil =>
    obtain rfl : start.state = s := Option.some.inj h
    intro r hr
    have hr' : r ∈ start.tables.redemptions := hr
    rw [h0] at hr'
    cases hr'
  | append_singleton as act ih =>
    rw [Start.run, Sys.run_snoc, Option.bind_eq_some_iff] at h
    obtain ⟨s₁, hs₁, hstep⟩ := h
    have hold : start.Acknowledges (as ++ [act]) s₁.db.tables := fun r hr hsuccess => by
      obtain ⟨event, hevent, hack⟩ := ih hs₁ r hr hsuccess
      exact ⟨event, hevent, hack.append [act]⟩
    rcases Sys.step_cases hstep with ⟨i, o, k, a, d, hp, ha, rfl⟩ | ⟨i, p, -, hp, rfl⟩ | ⟨n, -, rfl⟩
    · -- A worker's operation, or one of a call that makes no redemption successful.
      by_cases hcall : ∃ turns, start.calls i = .worker turns
      · obtain ⟨turns, hcall⟩ := hcall
        obtain ⟨traces, ht⟩ := Sys.exists_traced hs₁
        have hrule := Start.worker_rule ht hcall hp
        exact hold.worker (worker_effect hrule ha.opStep) hrule fun event hacc =>
          (hacc.acknowledged ht).append [act]
      · rcases Start.op_effect hs₁ hp ha.opStep with ⟨htables, -⟩ | ⟨e, -, hbefore, hafter, -, he⟩
        · change start.Acknowledges (as ++ [act]) d.tables
          rw [htables]
          exact hold
        · have heffect := he.webhooks fun turns hturns => hcall ⟨turns, hturns⟩
          rw [hbefore, hafter] at heffect
          exact hold.webhooks heffect
    · exact hold
    · exact hold

/-- When the service starts without redemptions, then in every state that any interleaving reaches,
with workers dying and statements failing: a redemption has at most one event that is still to be
delivered, and it is the current one; a redemption that shows success or dead letter has a current
event with this status; and if it shows success, a target has accepted that event. -/
theorem events_believable (h0 : start.tables.redemptions = ∅) (h : start.run as = some s) :
    (∀ o ∈ s.db.tables.outbox, ∀ o' ∈ s.db.tables.outbox, o.Live → o'.Live →
      o.redemptionId = o'.redemptionId → o = o') ∧
    (∀ o ∈ s.db.tables.outbox, o.Live → ∀ r ∈ s.db.tables.redemptions, r.id = o.redemptionId →
      r.eventId = some o.eventId) ∧
    (∀ r ∈ s.db.tables.redemptions, r.Finished → ∃ o ∈ s.db.tables.outbox, r.Shows o) ∧
    ∀ r ∈ s.db.tables.redemptions, r.webhookStatus = .success →
      ∃ event, r.eventId = some event ∧ start.Acknowledged as event := by
  have hint := (Start.history h).integrity (Or.inl rfl)
  have hb := (Start.history h).believable (.of_empty start.integrity h0)
  exact ⟨fun o ho o' ho' => hb.live_unique hint ho ho', hb.current, hb.finished,
    Start.success_acknowledged h0 h⟩

/-- The success that the redemption shows was acknowledged. -/
theorem events_believable_delivered : ∃ s, deliverOne.run deliverOneRun = some s ∧
    ∀ r ∈ s.db.tables.redemptions, r.webhookStatus = .success →
      ∃ event, r.eventId = some event ∧ deliverOne.Acknowledged deliverOneRun event := by
  obtain ⟨s, hs⟩ := deliverOne_runs
  exact ⟨s, hs, (events_believable rfl hs).2.2.2⟩

end CdkSystem
