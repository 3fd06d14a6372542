import CdkSystem.Proof.Reporting

/-!
# Leases fence off late reports

A report whose token is not the row's any more changes nothing (`stale_report`), no two reports are
made under one lease (`History.reports_pairwise`), an event's attempts are its leases
(`History.attempts_eq`), and a finished event is never leased or changed again (`finished_stays`).

The tokens are what makes this work. A lease writes a new token into the row, so the report of an
earlier worker no longer matches the condition of its statement, and a report clears the token, so
it cannot be made twice. Whether the worker has died in the meantime, or is only slow, makes no
difference. In the run at the end of the module, a lease expires while its worker is about to
report, another worker leases the event, and the first one reports too late.
-/

namespace CdkSystem

open RowLock Relational

variable {ι : Type} [DecidableEq ι] {start : Start ι} {as bs : List (Action ι Choice)}
  {s s' : State ι} {i : ι} {turns : ℕ} {q : UpdateWebhookOutboxParams}
  {k : Except Failure ℕ → M Result}

/-- An action of a caller: it goes on, its operation fails, or it dies. -/
def ActionOf (i : ι) (act : Action ι Choice) : Prop :=
  (∃ c, act = .exec i c) ∨ act = .fail i ∨ act = .crash i

/-- A report in the outbox names a token that the row does not have. -/
def Stale (q : UpdateWebhookOutboxParams) (T : Tables) : Prop :=
  ∀ o, T.outbox.get? q.id = some o → o.leaseToken ≠ q.leaseToken

/-- A report under a token that the row does not have changes nothing, and no report in the
redemption follows it. -/
theorem stale_report (h : start.run as = some s) (hcall : start.calls i = .worker turns)
    (hp : s.progs i = some (.op (.auto (.updateWebhookOutbox q)) k)) (hstale : Stale q s.db.tables)
    {act : Action ι Choice} (hact : ActionOf i act) (hstep : s.step postgres act = some s') :
    s'.db.tables = s.db.tables ∧
      ∀ p k', s'.progs i ≠ some (.op (.auto (.updateRedemptionWebhookStatus p)) k') := by
  constructor
  · rcases Sys.step_cases hstep with ⟨j, o, k', a, d, hj, ha, rfl⟩ | ⟨j, p, -, hj, rfl⟩ | ⟨n, -,
      rfl⟩
    · have hij : j = i := by
        rcases hact with ⟨c, rfl⟩ | rfl | rfl <;> cases ha <;> rfl
      subst hij
      rw [hp, Option.some.injEq, Prog.op.injEq] at hj
      obtain ⟨rfl, -⟩ := hj
      obtain ⟨traces, ht⟩ := Sys.exists_traced h
      -- The worker's report would need a row under its token, and there is none.
      cases worker_effect (Start.worker_rule ht hcall hp) ha.opStep with
      | nothing tables => exact tables
      | reported row leased token tables => exact (hstale _ row token).elim
    · rfl
    · rfl
  · intro p k' hp'
    rcases Start.reporting_of_step h hstep hcall hp' with
      hsame | ⟨q', event, k'', c, d, hq', -, hone, -⟩
    · rw [hp, hp'] at hsame
      cases hsame
    · rw [hp, Option.some.injEq, Prog.op.injEq] at hq'
      obtain ⟨he, -⟩ := hq'
      -- It comes to the second report only after the first one took effect, under the row's
      -- token.
      cases he
      obtain ⟨o, response, ho, -, htoken, -⟩ := reported_of_perform hone
      exact hstale o ho htoken

/-- A worker comes to a report in a redemption only from a report in the outbox under the row's
token, and it is on the row's event. -/
theorem fresh_report (h : start.run as = some s) (hcall : start.calls i = .worker turns)
    {act : Action ι Choice} (hstep : s.step postgres act = some s')
    {p : UpdateRedemptionWebhookStatusParams}
    (hp : s'.progs i = some (.op (.auto (.updateRedemptionWebhookStatus p)) k)) :
    s.progs i = s'.progs i ∨ ∃ q k' o, s.progs i = some (.op (.auto (.updateWebhookOutbox q)) k') ∧
      s.db.tables.outbox.get? q.id = some o ∧ o.leaseToken.isSome = true ∧
      o.leaseToken = q.leaseToken ∧ p.id = o.redemptionId ∧ p.eventId = o.eventId := by
  rcases Start.reporting_of_step h hstep hcall hp with
    hsame | ⟨q, event, k', c, d, hq, -, hone, rfl, -⟩
  · exact Or.inl hsame
  · obtain ⟨o, response, ho, hsome, htoken, -⟩ := reported_of_perform hone
    -- The report that comes next is the one of the outline.
    have hnext : ReportsNext (.updateWebhookOutbox q) k' s.db := (Start.asserts h hq).2
    obtain ⟨-, p', k'', hk', hid, hevent, -⟩ := hnext o ho
    simp only [Sys.resume, Function.update_self, Option.some.injEq] at hp
    rw [hk', Prog.op.injEq] at hp
    obtain ⟨he, -⟩ := hp
    cases he
    exact Or.inr ⟨q, k', o, hq, ho, hsome, htoken, hid, hevent⟩

/-- An event that is not live is never leased or changed again. -/
theorem finished_stays (h : start.run as = some s) {o : WebhookOutbox}
    (ho : s.db.tables.outbox.get? o.id = some o) (hlive : ¬ o.Live)
    (hbs : s.run postgres bs = some s') :
    s'.db.tables.outbox.get? o.id = some o ∧
      leaseCount s'.db.log o.id = leaseCount s.db.log o.id := by
  induction bs using List.reverseRecOn generalizing s' with
  | nil =>
    obtain rfl : s = s' := Option.some.inj hbs
    exact ⟨ho, rfl⟩
  | append_singleton bs act ih =>
    rw [Sys.run_snoc, Option.bind_eq_some_iff] at hbs
    obtain ⟨s₁, hs₁, hstep⟩ := hbs
    obtain ⟨hrow, hcount⟩ := ih hs₁
    have hrun := Start.run_append h hs₁
    rcases Start.step_effect hrun hstep with ⟨htables, hlog⟩ | ⟨e, hbefore, hafter, hlog, he⟩
    · rw [htables, hlog]
      exact ⟨hrow, hcount⟩
    · have hhistory := Start.history hrun
      rw [← hbefore] at hhistory hrow
      have hkept := hhistory.finished_kept he hrow hlive
      rw [← hafter, hlog, leaseCount_of_attempts hrow hkept rfl]
      exact ⟨hkept, hcount⟩

/-- In every state that any interleaving of workers reaches: a report by a worker whose token is not
the row's changes neither the outbox nor a redemption, since the report in the redemption comes only
after one in the outbox under the row's token; if all leases have different tokens, no two reports
are made under one lease; an event's attempts are the leases that it was granted, besides those that
it had at the start; and an event that is finished is never leased or changed again. -/
theorem reports_fenced (h : start.run as = some s) :
    (∀ i turns q k act s', start.calls i = .worker turns →
      s.progs i = some (.op (.auto (.updateWebhookOutbox q)) k) → Stale q s.db.tables →
      ActionOf i act → s.step postgres act = some s' → s'.db.tables = s.db.tables ∧
        ∀ p k', s'.progs i ≠ some (.op (.auto (.updateRedemptionWebhookStatus p)) k')) ∧
    (∀ i turns p k act s', start.calls i = .worker turns → s.step postgres act = some s' →
      s'.progs i = some (.op (.auto (.updateRedemptionWebhookStatus p)) k) →
      s.progs i = s'.progs i ∨ ∃ q k' o,
        s.progs i = some (.op (.auto (.updateWebhookOutbox q)) k') ∧
        s.db.tables.outbox.get? q.id = some o ∧ o.leaseToken.isSome = true ∧
        o.leaseToken = q.leaseToken ∧ p.id = o.redemptionId ∧ p.eventId = o.eventId) ∧
    (DistinctTokens s.db.log → s.db.log.Pairwise fun e e' =>
      ∀ id token, ReportsUnder e id token → ¬ ReportsUnder e' id token) ∧
    (∀ o ∈ s.db.tables.outbox, o.attempts = start.attempts o.id + leaseCount s.db.log o.id) ∧
    ∀ bs s', s.run postgres bs = some s' → ∀ o ∈ s.db.tables.outbox,
      o.status = .success ∨ o.status = .deadLetter → s'.db.tables.outbox.get? o.id = some o ∧
        leaseCount s'.db.log o.id = leaseCount s.db.log o.id := by
  refine ⟨fun i turns q k act s' hcall hp hstale hact hstep =>
      stale_report h hcall hp hstale hact hstep,
    fun i turns p k act s' hcall hstep hp => fresh_report h hcall hstep hp,
    (Start.history h).reports_pairwise, (Start.history h).attempts_eq,
    fun bs s' hbs o ho hfinished => finished_stays h (Table.get?_of_mem ho) ?_ hbs⟩
  rintro (hlive | hlive) <;> rcases hfinished with hf | hf <;> rw [hf] at hlive <;> cases hlive

omit [DecidableEq ι] in
/-- The report in the outbox that a worker is about to make. -/
def State.report? (s : State ι) (i : ι) : Option UpdateWebhookOutboxParams :=
  match s.progs i with
  | some (.op (.auto (.updateWebhookOutbox q)) _) => some q
  | _ => none

omit [DecidableEq ι] in
/-- The report that was found is the worker's next operation. -/
theorem State.report?_eq_some (h : s.report? i = some q) :
    ∃ k, s.progs i = some (.op (.auto (.updateWebhookOutbox q)) k) := by
  unfold State.report? at h
  split at h
  · rename_i q' k hp
    obtain rfl := Option.some.inj h
    exact ⟨k, hp⟩
  · cases h

/-- A worker is about to report that the target has failed when its lease expires, and another one
leases the event. -/
def lateRun : List (Action ℕ Choice) :=
  deliverOneRun.take 16 ++ List.replicate 6 (.exec 2 ⟨0, hexText '2', .response 500 []⟩) ++
    [.tick 120000000] ++ List.replicate 2 (.exec 3 ⟨0, hexText '3', .unsent⟩)

/-- At its end, the first worker's token is not that of the event, which has been leased twice. -/
theorem lateRun_shows : (deliverOne.run lateRun).map (fun s =>
    ((s.report? 2).map fun q => (q.id, q.leaseToken),
      s.db.tables.outbox.rows.map fun o => (o.id, o.leaseToken, o.attempts))) =
    some (some (0, some (hexText '2')), [(0, some (hexText '3'), 2)]) := by
  decide +kernel

/-- The late report changes nothing, and no report in the redemption follows it; the event's two
attempts are its two leases. -/
theorem reports_fenced_late : ∃ s s' q k, deliverOne.run lateRun = some s ∧
    s.progs 2 = some (.op (.auto (.updateWebhookOutbox q)) k) ∧ Stale q s.db.tables ∧
    s.step postgres (.exec 2 ⟨0, "", .unsent⟩) = some s' ∧ s'.db.tables = s.db.tables ∧
    (∀ p k', s'.progs 2 ≠ some (.op (.auto (.updateRedemptionWebhookStatus p)) k')) ∧
    ∃ o ∈ s.db.tables.outbox, o.attempts = 2 ∧ leaseCount s.db.log o.id = 2 := by
  have hruns : (deliverOne.run (lateRun ++ [.exec 2 ⟨0, "", .unsent⟩])).isSome = true := by
    decide +kernel
  obtain ⟨s', hs'⟩ := Option.isSome_iff_exists.mp hruns
  rw [Start.run, Sys.run_snoc, Option.bind_eq_some_iff] at hs'
  obtain ⟨s, hlate, hstep⟩ := hs'
  have hs : deliverOne.run lateRun = some s := hlate
  have hshows := lateRun_shows
  rw [hs, Option.map_some, Option.some.injEq, Prod.mk.injEq] at hshows
  obtain ⟨hreport, hrows⟩ := hshows
  obtain ⟨q, hq, htoken⟩ := Option.map_eq_some_iff.mp hreport
  obtain ⟨-, htoken⟩ := Prod.mk.inj htoken
  obtain ⟨k, hp⟩ := State.report?_eq_some hq
  obtain ⟨o, ho, hvalues⟩ := List.map_eq_singleton_iff.mp hrows
  simp only [Prod.mk.injEq] at hvalues
  obtain ⟨-, hlease, hattempts⟩ := hvalues
  -- There is one event, which has been leased again.
  have hmem : ∀ o', o' ∈ s.db.tables.outbox ↔ o' = o := by
    intro o'
    rw [Table.mem_iff, ho, List.mem_singleton]
  have hstale : Stale q s.db.tables := by
    intro o' ho'
    obtain rfl := (hmem o').mp (Table.mem_of_get? ho')
    rw [hlease, htoken]
    decide
  obtain ⟨hstale', -, -, hcount, -⟩ := reports_fenced hs
  obtain ⟨hsame, hnone⟩ := hstale' 2 1 q k _ s' rfl hp hstale (Or.inl ⟨_, rfl⟩) hstep
  refine ⟨s, s', q, k, hs, hp, hstale, hstep, hsame, hnone, o, (hmem o).mpr rfl, hattempts, ?_⟩
  have hleases := hcount o ((hmem o).mpr rfl)
  rw [hattempts] at hleases
  have hzero : deliverOne.attempts o.id = 0 := rfl
  omega

end CdkSystem
