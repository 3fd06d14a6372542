import CdkSystem.Proof.Mirroring

/-!
# Redemptions mirror their events

In a run in which no lease overtakes a report, every redemption with an event shows the status of
the event's row, except while a worker is about to report it and after such a report was lost
(`redemptions_mirror_events`), and a finished redemption keeps its row until its webhook is resent
(`finished_unless_overtaken`). A redemption that shows a finished event as pending shows it for good
(`stranded_stays`).

An overtaken report is one between whose two statements another worker leases the same event. The
invariants are about the tables together with the reports that are still to be made, so a step lemma
looks at six kinds of steps (`Start.webhookStep`).
-/

namespace CdkSystem

open RowLock Relational

variable {ι : Type} [DecidableEq ι] {start : Start ι} {as : List (Action ι Choice)}
  {act : Action ι Choice} {s s' : State ι} {i : ι} {p : UpdateRedemptionWebhookStatusParams}

/-! ## The mirror -/

/-- The report of a worker on an event was lost, and no worker has come to a report on it since. -/
def Start.ReportLost (start : Start ι) (as : List (Action ι Choice)) (event : String) : Prop :=
  ∃ (as₁ : List (Action ι Choice)) (act : Action ι Choice) (as₂ : List (Action ι Choice))
    (s₁ s₂ : State ι) (i : ι) (p : UpdateRedemptionWebhookStatusParams), as = as₁ ++ act :: as₂ ∧
      start.run as₁ = some s₁ ∧ s₁.step postgres act = some s₂ ∧ start.Reporting s₁ i p ∧
      p.eventId = event ∧ s₂.db.log = s₁.db.log ∧
      ∀ as₃ as₄ s₃ j q, as₂ = as₃ ++ as₄ → s₂.run postgres as₃ = some s₃ →
        start.Reporting s₃ j q → q.eventId ≠ event

/-- A lost report stays lost while nobody comes to a report on the event. -/
theorem Start.ReportLost.append (hl : start.ReportLost as event) (h : start.run as = some s)
    (hstep : s.step postgres act = some s')
    (hnone : ∀ j q, start.Reporting s' j q → q.eventId ≠ event) :
    start.ReportLost (as ++ [act]) event := by
  obtain ⟨as₁, act₁, as₂, s₁, s₂, i, p, rfl, hs₁, hs₂, hp, hevent, hlog, hsince⟩ := hl
  refine ⟨as₁, act₁, as₂ ++ [act], s₁, s₂, i, p, by simp, hs₁, hs₂, hp, hevent, hlog, ?_⟩
  intro as₃ as₄ s₃ j q heq hrun hq
  have hrest : s₂.run postgres as₂ = some s := by
    have hfirst : start.state.run postgres (as₁ ++ [act₁]) = some s₂ := by
      have hrun₁ : start.state.run postgres as₁ = some s₁ := hs₁
      rw [Sys.run_snoc, hrun₁, Option.bind_some, hs₂]
    have hall : start.state.run postgres ((as₁ ++ [act₁]) ++ as₂) = some s := by
      rw [List.append_assoc]
      exact h
    rwa [Sys.run_append, hfirst, Option.bind_some] at hall
  -- Either the part ends before the new step, or it is all that followed.
  rcases List.eq_nil_or_concat as₄ with rfl | ⟨bs, b, rfl⟩
  · rw [List.append_nil] at heq
    rw [← heq, Sys.run_snoc, hrest, Option.bind_some, hstep, Option.some.injEq] at hrun
    rw [← hrun] at hq
    exact hnone j q hq
  · rw [List.concat_eq_append, ← List.append_assoc] at heq
    obtain ⟨heq, -⟩ := List.append_inj' heq rfl
    exact hsince as₃ bs s₃ j q heq hrun hq

/-- The redemption of an event shows the event's status, where an event that will be tried again
shows as pending; or a worker is about to report on the event; or such a report was lost. -/
structure Start.Mirrors (start : Start ι) (as : List (Action ι Choice)) (s : State ι)
    (r : Redemption) (o : WebhookOutbox) : Prop where
  redemption : o.redemptionId = r.id
  event : r.eventId = some o.eventId
  status : r.webhookStatus = redemptionStatus o.status ∨
    (∃ i p, start.Reporting s i p ∧ p.eventId = o.eventId) ∨ start.ReportLost as o.eventId

/-- Every redemption with an event shows the status of the event's row. -/
def Tables.Mirrored (T : Tables) : Prop :=
  ∀ r ∈ T.redemptions, r.eventId.isSome = true → ∃ o ∈ T.outbox, o.redemptionId = r.id ∧
    r.eventId = some o.eventId ∧ r.webhookStatus = redemptionStatus o.status

/-- All redemptions with an event mirror it. -/
def Start.AllMirror (start : Start ι) (as : List (Action ι Choice)) (s : State ι) : Prop :=
  ∀ r ∈ s.db.tables.redemptions, r.eventId.isSome = true →
    ∃ o ∈ s.db.tables.outbox, start.Mirrors as s r o

/-- A mirror stays one in a step that leaves the redemption and the event's status, if the reports
on the event that are still to be made are made later or get lost. -/
theorem Start.Mirrors.keep {r r' : Redemption} {o o' : WebhookOutbox} (hm : start.Mirrors as s r o)
    (h : start.run as = some s) (hstep : s.step postgres act = some s')
    (hredemption : o'.redemptionId = o.redemptionId) (hevent : o'.eventId = o.eventId)
    (hstatus : redemptionStatus o'.status = redemptionStatus o.status) (hid : r'.id = r.id)
    (hcurrent : r'.eventId = r.eventId) (hshown : r'.webhookStatus = r.webhookStatus)
    (hreports : ∀ i p, start.Reporting s i p → p.eventId = o.eventId →
      start.Reporting s' i p ∨ start.ReportLost (as ++ [act]) o.eventId) :
    start.Mirrors (as ++ [act]) s' r' o' := by
  refine ⟨by rw [hredemption, hm.redemption, hid], by rw [hcurrent, hm.event, hevent], ?_⟩
  rw [hstatus, hevent, hshown]
  rcases hm.status with hsame | ⟨i, p, hp, hpevent⟩ | hlost
  · exact Or.inl hsame
  · rcases hreports i p hp hpevent with hp' | hlost
    · exact Or.inr (Or.inl ⟨i, p, hp', hpevent⟩)
    · exact Or.inr (Or.inr hlost)
  · by_cases hnext : ∃ i p, start.Reporting s' i p ∧ p.eventId = o.eventId
    · exact Or.inr (Or.inl hnext)
    · refine Or.inr (Or.inr (hlost.append h hstep fun j q hq he => ?_))
      exact hnext ⟨j, q, hq, he⟩

/-- A step between fenced states keeps the mirrors. -/
theorem Start.AllMirror.step (ha : start.AllMirror as s) (hf : start.Fenced s)
    (h : start.run as = some s) (hstep : s.step postgres act = some s') :
    start.AllMirror (as ++ [act]) s' := by
  have hint : s.db.tables.Integrity := (Start.history h).integrity (Or.inl rfl)
  -- A redemption that was there before, and whose event's row is still there.
  have hold : ∀ r ∈ s.db.tables.redemptions, r.eventId.isSome = true →
      (∀ o ∈ s.db.tables.outbox, r.eventId = some o.eventId → o ∈ s'.db.tables.outbox) →
      (∀ i p event, start.Reporting s i p → r.eventId = some event → p.eventId = event →
        start.Reporting s' i p ∨ start.ReportLost (as ++ [act]) event) →
      ∃ o ∈ s'.db.tables.outbox, start.Mirrors (as ++ [act]) s' r o := by
    intro r hr hsome hkept hreports
    obtain ⟨o, ho, hm⟩ := ha r hr hsome
    refine ⟨o, hkept o ho hm.event, hm.keep h hstep rfl rfl rfl rfl rfl rfl fun i p hp he => ?_⟩
    exact hreports i p o.eventId hp hm.event he
  cases Start.webhookStep h hstep with
  | other effect rows keeps =>
    have hsame : ∀ r ∈ s.db.tables.redemptions, r.eventId.isSome = true →
        ∃ o ∈ s'.db.tables.outbox, start.Mirrors (as ++ [act]) s' r o := fun r hr hsome =>
      hold r hr hsome (fun o ho _ => effect.mem_outbox ho) fun i p _ hp _ _ =>
        Or.inl ((keeps i p).mpr hp)
    cases effect with
    | same redemptions outbox =>
      intro r hr hsome
      rw [redemptions] at hr
      exact hsame r hr hsome
    | @redeemed r₀ new redemptions outbox status event =>
      intro r hr hsome
      rw [redemptions] at hr
      rcases Table.mem_or_eq_of_mem_insert hr with hr | rfl
      · exact hsame r hr hsome
      · rw [event] at hsome
        cases hsome
    | @announced r₀ o new redemptions newEvent outbox status event row =>
      intro r hr hsome
      rw [redemptions] at hr
      rcases Table.mem_or_eq_of_mem_insert hr with hr | rfl
      · exact hsame r hr hsome
      · refine ⟨o, ?_, by rw [row]; rfl, event, Or.inl ?_⟩
        · rw [outbox]
          exact (Table.mem_insert newEvent).mpr (Or.inr rfl)
        · rw [status, row]
          rfl
    | @resent r₀ o row finished redemptions newEvent outboxEvent outbox event =>
      intro r hr hsome
      rw [redemptions] at hr
      obtain ⟨r₁, hr₁, rfl⟩ := Table.mem_modify.mp hr
      split_ifs at hsome ⊢ with hk
      · have hid : r₁.id = r₀.id := hk
        refine ⟨o, ?_, by rw [event]; exact hid.symm, rfl, Or.inl ?_⟩
        · rw [outbox]
          exact (Table.mem_insert newEvent).mpr (Or.inr rfl)
        · rw [event]
          rfl
      · exact hsame r₁ hr₁ hsome
  | @leased e o token expires row live log lease tables keeps =>
    intro r hr hsome
    rw [tables] at hr ⊢
    obtain ⟨o', ho', hm⟩ := ha r hr hsome
    have hreports : ∀ i p, start.Reporting s i p → p.eventId = o'.eventId →
        start.Reporting s' i p ∨ start.ReportLost (as ++ [act]) o'.eventId := fun i p hp _ =>
      Or.inl ((keeps i p).mpr hp)
    refine ⟨_, mem_outbox_leased _ _ _ ho', ?_⟩
    split_ifs with hk
    · -- A live event shows as pending, before and after.
      obtain rfl : o' = o := Table.key_injective ho' (Table.mem_of_get? row) hk
      refine hm.keep h hstep rfl rfl ?_ rfl rfl rfl hreports
      rcases live with hl | hl <;> rw [hl] <;> rfl
    · exact hm.keep h hstep rfl rfl rfl rfl rfl rfl hreports
  | @reported i p o report row leased tables redemption event status reporting before keeps =>
    intro r hr hsome
    rw [tables] at hr ⊢
    obtain ⟨o', ho', hm⟩ := ha r hr hsome
    refine ⟨_, mem_outbox_reported _ _ ho', ?_⟩
    split_ifs with hk
    · obtain rfl : o' = o := Table.key_injective ho' (Table.mem_of_get? row) hk
      exact ⟨hm.redemption, hm.event, Or.inr (Or.inl ⟨i, p, reporting, event⟩)⟩
    · refine hm.keep h hstep rfl rfl rfl rfl rfl rfl fun j q hq _ => Or.inl ?_
      have hij : j ≠ i := by
        rintro rfl
        exact before q hq
      exact (keeps j q hij).mpr hq
  | @settled i p r₀ report reporting row event status tables keeps =>
    obtain ⟨o, ho, hoevent, horedemption, -, hostatus⟩ := hf.agrees i p reporting
    have hid₀ : r₀.id = p.id := Table.key_of_get? row
    intro r hr hsome
    rw [tables] at hr ⊢
    obtain ⟨r₁, hr₁, rfl⟩ := mem_redemptions_reported hr
    change ∃ o ∈ s.db.tables.outbox, _
    split_ifs at hsome ⊢ with hk
    · obtain rfl : r₁ = r₀ := Table.key_injective hr₁ (Table.mem_of_get? row) (hk.trans hid₀.symm)
      refine ⟨o, ho, horedemption.trans hid₀.symm, ?_, Or.inl ?_⟩
      · rw [hoevent]
        exact event
      · rw [← hostatus, ← status]
        rfl
    · obtain ⟨o', ho', hm⟩ := ha r₁ hr₁ hsome
      refine ⟨o', ho', hm.keep h hstep rfl rfl rfl rfl rfl rfl fun j q hq hqevent => Or.inl ?_⟩
      refine (keeps j q).mpr ⟨hq, ?_⟩
      -- The worker's report is on another event.
      rintro rfl
      obtain rfl : q = p := hq.eq reporting
      have hsame : r₁ = r₀ := hint.redemptionEvent r₁ hr₁ r₀ (Table.mem_of_get? row) q.eventId
        (by rw [hm.event, hqevent]) event
      rw [hsame] at hk
      exact hk hid₀
  | @missed i p reporting event tables keeps =>
    obtain ⟨o, ho, hoevent, horedemption, -, -⟩ := hf.agrees i p reporting
    intro r hr hsome
    rw [tables] at hr
    refine hold r hr hsome (fun o ho _ => by rwa [tables]) fun j q event' hq hrevent hqevent => ?_
    refine Or.inl ((keeps j q).mpr ⟨hq, ?_⟩)
    rintro rfl
    obtain rfl : q = p := hq.eq reporting
    -- Nobody's current event is the one that was missed.
    obtain ⟨o', ho', hm⟩ := ha r hr hsome
    have hsame : o' = o := by
      refine hint.outboxEvent o' ho' o ho ?_
      have he := hm.event
      rw [hrevent, Option.some.injEq] at he
      rw [← he, hoevent, hqevent]
    have hrid : r.id = q.id := by rw [← hm.redemption, hsame, horedemption]
    refine event r ?_ (by rw [hrevent, hqevent])
    rw [← hrid]
    exact Table.get?_of_mem hr
  | @lost i p reporting tables log keeps =>
    intro r hr hsome
    rw [tables] at hr
    refine hold r hr hsome (fun o ho _ => by rwa [tables]) fun j q event' hq hrevent hqevent => ?_
    by_cases hij : j = i
    · subst hij
      refine Or.inr ⟨as, act, [], s, s', j, q, rfl, h, hstep, hq, hqevent, log, ?_⟩
      intro as₃ as₄ s₃ j' q' heq hrun hq' he
      obtain ⟨rfl, -⟩ := List.append_eq_nil_iff.mp heq.symm
      obtain rfl : s' = s₃ := Option.some.inj hrun
      obtain ⟨hq'', hne⟩ := (keeps j' q').mp hq'
      exact hne (hf.unique j' j q' q hq'' hq (he.trans hqevent.symm))
    · exact Or.inl ((keeps j q).mpr ⟨hq, hij⟩)

/-- In every run in which no report is overtaken, every redemption with an event mirrors it. -/
theorem Start.allMirror (h : start.run as = some s) (h0 : start.tables.Mirrored)
    (hnot : ¬ start.Overtaken as) : start.AllMirror as s := by
  induction as using List.reverseRecOn generalizing s with
  | nil =>
    obtain rfl : start.state = s := Option.some.inj h
    intro r hr hsome
    obtain ⟨o, ho, hredemption, hevent, hstatus⟩ := h0 r hr hsome
    exact ⟨o, ho, hredemption, hevent, Or.inl hstatus⟩
  | append_singleton as act ih =>
    rw [Start.run, Sys.run_snoc, Option.bind_eq_some_iff] at h
    obtain ⟨s₁, hs₁, hstep⟩ := h
    have hbefore : ¬ start.Overtaken as := fun ho => hnot (ho.append [act])
    exact (ih hs₁ hbefore).step (Start.fenced hs₁ hbefore) hs₁ hstep

/-- In every state of every run in which no lease overtakes a report, and of every run with one
worker: the workers that are about to report in a redemption agree with the rows of their events,
and every redemption with an event shows the status of the event's row, where an event that will be
tried again shows as pending, except while a worker is about to report on it and after such a report
was lost. -/
theorem redemptions_mirror_events (h : start.run as = some s) (h0 : start.tables.Mirrored) :
    (start.Overtaken as ∧ ∃ i j turns turns', i ≠ j ∧ start.calls i = .worker turns ∧
      start.calls j = .worker turns') ∨ start.Fenced s ∧ start.AllMirror as s := by
  by_cases hover : start.Overtaken as
  · exact Or.inl ⟨hover, hover.two_workers⟩
  · exact Or.inr ⟨Start.fenced h hover, Start.allMirror h h0 hover⟩

/-- Without redemptions, everything is mirrored from the start. -/
theorem deliverOne_mirrored : deliverOne.tables.Mirrored := by
  intro r hr
  cases hr

/-- The redemption whose event was delivered mirrors it. -/
theorem redemptions_mirror_events_delivered : ∃ s, deliverOne.run deliverOneRun = some s ∧
    ((deliverOne.Overtaken deliverOneRun ∧ ∃ i j turns turns', i ≠ j ∧
      deliverOne.calls i = .worker turns ∧ deliverOne.calls j = .worker turns') ∨
      deliverOne.Fenced s ∧ deliverOne.AllMirror deliverOneRun s) := by
  obtain ⟨s, hs⟩ := deliverOne_runs
  exact ⟨s, hs, redemptions_mirror_events hs deliverOne_mirrored⟩

/-! ## Finished redemptions -/

/-- No worker is about to report on the event of a redemption that is finished. -/
def Start.Unfinished (start : Start ι) (s : State ι) : Prop :=
  ∀ i p, start.Reporting s i p → ∀ r ∈ s.db.tables.redemptions, r.eventId = some p.eventId →
    ¬ r.Finished

/-- A step between fenced states keeps the reported redemptions unfinished. -/
theorem Start.Unfinished.step (hu : start.Unfinished s) (hf : start.Fenced s)
    (hb : s.db.tables.Believable) (h : start.run as = some s)
    (hstep : s.step postgres act = some s') : start.Unfinished s' := by
  have hint : s.db.tables.Integrity := (Start.history h).integrity (Or.inl rfl)
  cases Start.webhookStep h hstep with
  | other effect rows keeps =>
    intro j p hp
    have hold := hu j p ((keeps j p).mp hp)
    cases effect with
    | same redemptions outbox =>
      rw [redemptions]
      exact hold
    | redeemed new redemptions outbox status event
    | announced new redemptions newEvent outbox status =>
      rw [redemptions]
      refine forall_mem_insert hold fun _ hfinished => ?_
      rcases hfinished with hs | hs <;> rw [status] at hs <;> cases hs
    | resent row finished redemptions newEvent outboxEvent outbox event =>
      rw [redemptions]
      intro r hr he
      obtain ⟨r₀, hr₀, rfl⟩ := Table.mem_modify.mp hr
      split_ifs at he ⊢ with hk
      · rintro (hs | hs) <;> cases hs
      · exact hold r₀ hr₀ he
  | leased row live log lease tables keeps =>
    intro j p hp
    rw [tables]
    exact hu j p ((keeps j p).mp hp)
  | @reported i p o report row leased tables redemption event status reporting before keeps =>
    intro j q hq
    rw [tables]
    change ∀ r ∈ s.db.tables.redemptions, _
    by_cases hij : j = i
    · subst hij
      obtain rfl : q = p := hq.eq reporting
      intro r hr he hfinished
      -- The event is leased, so it is pending, but the redemption shows it as finished.
      have hmem : o ∈ s.db.tables.outbox := Table.mem_of_get? row
      obtain ⟨o', ho', hshows⟩ := hb.finished r hr hfinished
      have hevent : o'.eventId = o.eventId := by
        have hshown := hshows.event
        rw [he, event, Option.some.injEq] at hshown
        exact hshown.symm
      obtain rfl : o' = o := hint.outboxEvent o' ho' o hmem hevent
      have hpending := hb.leased o' hmem leased
      rw [hshows.status] at hpending
      rcases hfinished with hs | hs <;> rw [hpending] at hs <;> cases hs
    · exact hu j q ((keeps j q hij).mp hq)
  | @settled i p r₀ report reporting row event status tables keeps =>
    intro j q hq
    obtain ⟨hq₀, hne⟩ := (keeps j q).mp hq
    rw [tables]
    intro r hr he
    obtain ⟨r₁, hr₁, rfl⟩ := mem_redemptions_reported hr
    split_ifs at he ⊢ with hk
    · obtain rfl : r₁ = r₀ :=
        Table.key_injective hr₁ (Table.mem_of_get? row) (hk.trans (Table.key_of_get? row).symm)
      have hsame : q.eventId = p.eventId := Option.some.inj (he.symm.trans event)
      exact absurd (hf.unique j i q p hq₀ reporting hsame) hne
    · exact hu j q hq₀ r₁ hr₁ he
  | missed reporting event tables keeps | lost reporting tables log keeps =>
    intro j q hq
    rw [tables]
    exact hu j q ((keeps j q).mp hq).1

/-- In a run in which no report is overtaken, the reported redemptions are unfinished. -/
theorem Start.unfinished (h : start.run as = some s) (h0 : start.tables.Believable)
    (hnot : ¬ start.Overtaken as) : start.Unfinished s := by
  induction as using List.reverseRecOn generalizing s with
  | nil =>
    obtain rfl : start.state = s := Option.some.inj h
    exact fun i p hp => absurd hp Start.not_reporting_start
  | append_singleton as act ih =>
    rw [Start.run, Sys.run_snoc, Option.bind_eq_some_iff] at h
    obtain ⟨s₁, hs₁, hstep⟩ := h
    have hbefore : ¬ start.Overtaken as := fun ho => hnot (ho.append [act])
    exact (ih hs₁ hbefore).step (Start.fenced hs₁ hbefore) ((Start.history hs₁).believable h0) hs₁
      hstep

/-- A step between fenced states leaves a finished redemption as it is, unless it resends its
webhook. -/
theorem Start.Unfinished.finished_step (hu : start.Unfinished s) (h : start.run as = some s)
    (hstep : s.step postgres act = some s') {r : Redemption} (hr : r ∈ s.db.tables.redemptions)
    (hfinished : r.Finished) :
    r ∈ s'.db.tables.redemptions ∨ start.Resends s.db s'.db r.id := by
  cases Start.webhookStep h hstep with
  | other effect rows keeps => exact rows r hr
  | leased row live log lease tables keeps => exact Or.inl (tables ▸ hr)
  | reported row leased tables => exact Or.inl (tables ▸ hr)
  | @settled i p r₀ report reporting row event status tables keeps =>
    left
    rw [tables]
    change r ∈ s.db.tables.redemptions.modify p.id _ (Redemption.key_updateWebhookStatus report)
    refine Table.mem_modify.mpr ⟨r, hr, (if_neg fun hk => ?_).symm⟩
    obtain rfl : r = r₀ :=
      Table.key_injective hr (Table.mem_of_get? row) (hk.trans (Table.key_of_get? row).symm)
    exact hu i p reporting r hr event hfinished
  | missed reporting event tables keeps | lost reporting tables log keeps =>
    exact Or.inl (tables ▸ hr)

/-- A finished redemption keeps its row, whatever calls and workers go on, until a commit resends
its webhook, unless a lease overtakes a report. -/
theorem finished_unless_overtaken (h : start.run as = some s) (h0 : start.tables.Believable)
    {r : Redemption} (hr : r ∈ s.db.tables.redemptions) (hfinished : r.Finished)
    {bs : List (Action ι Choice)} (hbs : s.run postgres bs = some s') :
    start.Overtaken (as ++ bs) ∨ r ∈ s'.db.tables.redemptions ∨
      ∃ bs₁ act bs₂ s₁ s₂, bs = bs₁ ++ act :: bs₂ ∧ s.run postgres bs₁ = some s₁ ∧
        s₁.step postgres act = some s₂ ∧ r ∈ s₁.db.tables.redemptions ∧
        start.Resends s₁.db s₂.db r.id := by
  induction bs using List.reverseRecOn generalizing s' with
  | nil =>
    obtain rfl : s = s' := Option.some.inj hbs
    exact Or.inr (Or.inl hr)
  | append_singleton bs act ih =>
    rw [Sys.run_snoc, Option.bind_eq_some_iff] at hbs
    obtain ⟨s₁, hs₁, hstep⟩ := hbs
    have hrun : start.run (as ++ bs) = some s₁ := Start.run_append h hs₁
    by_cases hover : start.Overtaken (as ++ bs)
    · left
      rw [← List.append_assoc]
      exact hover.append [act]
    rcases ih hs₁ with hover' | hr₁ | ⟨bs₁, act₁, bs₂, s₂, s₃, rfl, hresent⟩
    · exact absurd hover' hover
    · rcases (Start.unfinished hrun h0 hover).finished_step hrun hstep hr₁ hfinished
        with hr' | hresends
      · exact Or.inr (Or.inl hr')
      · exact Or.inr (Or.inr ⟨bs, act, [], s₁, s', rfl, hs₁, hstep, hr₁, hresends⟩)
    · exact Or.inr (Or.inr ⟨bs₁, act₁, bs₂ ++ [act], s₂, s₃, by simp, hresent⟩)

/-- A program asks for nothing: it has returned, or it has died. -/
def State.idle (s : State ι) (i : ι) : Bool :=
  match s.progs i with
  | some (.op _ _) => false
  | _ => true

/-- After the delivery, another worker looks for an event, and returns without one. -/
def searchRun : List (Action ℕ Choice) :=
  .tick 120000000 :: List.replicate 2 (.exec 3 ⟨0, hexText '3', .unsent⟩)

/-- The delivered redemption keeps its row while another worker runs to its end. -/
theorem finished_unless_overtaken_delivered : ∃ (s s' : State ℕ) (r : Redemption),
    deliverOne.run deliverOneRun = some s ∧ s.run postgres searchRun = some s' ∧
    s'.idle 3 = true ∧ r ∈ s.db.tables.redemptions ∧
    (deliverOne.Overtaken (deliverOneRun ++ searchRun) ∨ r ∈ s'.db.tables.redemptions ∨
      ∃ bs₁ act bs₂ s₁ s₂, searchRun = bs₁ ++ act :: bs₂ ∧ s.run postgres bs₁ = some s₁ ∧
        s₁.step postgres act = some s₂ ∧ r ∈ s₁.db.tables.redemptions ∧
        deliverOne.Resends s₁.db s₂.db r.id) := by
  obtain ⟨s, hs⟩ := deliverOne_runs
  have hidle : (deliverOne.run (deliverOneRun ++ searchRun)).map (fun s => s.idle 3) =
      some true := by
    decide +kernel
  obtain ⟨s', hs', hret⟩ := Option.map_eq_some_iff.mp hidle
  have hsearch : s.run postgres searchRun = some s' := by
    rwa [Start.run, Sys.run_append, ← Start.run, hs, Option.bind_some] at hs'
  have hshown : (deliverOne.run deliverOneRun).map (fun s =>
      s.db.tables.redemptions.rows.map Redemption.webhookStatus) = some [.success] := by
    decide +kernel
  rw [hs, Option.map_some, Option.some.injEq, List.map_eq_singleton_iff] at hshown
  obtain ⟨r, hrows, hr⟩ := hshown
  have hmem : r ∈ s.db.tables.redemptions := by
    rw [Table.mem_iff, hrows]
    exact List.mem_singleton_self r
  exact ⟨s, s', r, hs, hsearch, hret, hmem, finished_unless_overtaken hs
    (Tables.Believable.of_empty deliverOne.integrity rfl) hmem (Or.inl hr) hsearch⟩

/-! ## Stranded redemptions -/

/-- A redemption shows its event as pending although the event is finished, and no worker is about
to report on the event. -/
structure Start.Stranded (start : Start ι) (s : State ι) (r : Redemption) (o : WebhookOutbox) :
    Prop where
  redemption : r ∈ s.db.tables.redemptions
  outbox : o ∈ s.db.tables.outbox
  pending : r.webhookStatus = .pending
  event : r.eventId = some o.eventId
  finished : ¬ o.Live
  unreported : ∀ i p, start.Reporting s i p → p.eventId ≠ o.eventId

/-- No step helps a stranded redemption: it stays as it is, and so does its outbox row. -/
theorem Start.Stranded.step {r : Redemption} {o : WebhookOutbox} (hst : start.Stranded s r o)
    (hb : s.db.tables.Believable) (h : start.run as = some s)
    (hstep : s.step postgres act = some s') : start.Stranded s' r o := by
  have hint : s.db.tables.Integrity := (Start.history h).integrity (Or.inl rfl)
  have hreported : ∀ T : Tables, T.redemptions = s.db.tables.redemptions →
      r ∈ T.redemptions := fun T hT => hT ▸ hst.redemption
  cases Start.webhookStep h hstep with
  | other effect rows keeps =>
    have hnone : ∀ i p, start.Reporting s' i p → p.eventId ≠ o.eventId := fun i p hp =>
      hst.unreported i p ((keeps i p).mp hp)
    refine ⟨?_, effect.mem_outbox hst.outbox, hst.pending, hst.event, hst.finished, hnone⟩
    cases effect with
    | same redemptions outbox => exact hreported _ redemptions
    | redeemed new redemptions outbox status event | announced new redemptions newEvent outbox =>
      rw [redemptions]
      exact Table.mem_insert_of_mem hst.redemption
    | resent row finished redemptions newEvent outboxEvent outbox event =>
      rw [redemptions]
      refine Table.mem_modify.mpr ⟨r, hst.redemption, (if_neg fun hk => ?_).symm⟩
      -- A resend is refused while the redemption is pending.
      obtain rfl := Table.key_injective hst.redemption (Table.mem_of_get? row) hk
      rw [hst.pending] at finished
      simp at finished
  | @leased e o' token expires row live log lease tables keeps =>
    refine ⟨hreported _ (by rw [tables]; rfl), ?_, hst.pending, hst.event, hst.finished,
      fun i p hp => hst.unreported i p ((keeps i p).mp hp)⟩
    have hmem := mem_outbox_leased o'.id token expires hst.outbox
    rw [if_neg fun hk => ?_] at hmem
    · rwa [tables]
    · obtain rfl := Table.key_injective hst.outbox (Table.mem_of_get? row) hk
      exact hst.finished live
  | @reported i p o' report row leased tables redemption event status reporting before keeps =>
    have hne : key o ≠ o'.id := by
      intro hk
      obtain rfl := Table.key_injective hst.outbox (Table.mem_of_get? row) hk
      exact hst.finished (Or.inl (hb.leased o hst.outbox leased))
    refine ⟨hreported _ (by rw [tables]; rfl), ?_, hst.pending, hst.event, hst.finished,
      fun j q hq => ?_⟩
    · have hmem := mem_outbox_reported o'.id report hst.outbox
      rw [if_neg hne] at hmem
      rwa [tables]
    · by_cases hij : j = i
      · subst hij
        obtain rfl := hq.eq reporting
        rw [event]
        intro he
        obtain rfl := hint.outboxEvent o' (Table.mem_of_get? row) o hst.outbox he
        exact hne rfl
      · exact hst.unreported j q ((keeps j q hij).mp hq)
  | @settled i p r₀ report reporting row event status tables keeps =>
    refine ⟨?_, by rw [tables]; exact hst.outbox, hst.pending, hst.event, hst.finished,
      fun j q hq => hst.unreported j q ((keeps j q).mp hq).1⟩
    rw [tables]
    change r ∈ s.db.tables.redemptions.modify p.id _ (Redemption.key_updateWebhookStatus report)
    refine Table.mem_modify.mpr ⟨r, hst.redemption, (if_neg fun hk => ?_).symm⟩
    obtain rfl : r = r₀ := Table.key_injective hst.redemption (Table.mem_of_get? row)
      (hk.trans (Table.key_of_get? row).symm)
    rw [hst.event, Option.some.injEq] at event
    exact hst.unreported i p reporting event.symm
  | missed reporting event tables keeps | lost reporting tables log keeps =>
    exact ⟨tables ▸ hst.redemption, tables ▸ hst.outbox, hst.pending, hst.event, hst.finished,
      fun j q hq => hst.unreported j q ((keeps j q).mp hq).1⟩

/-- A stranded redemption stays stranded in every run: no lease, no report and no resend touches it
or its event any more. -/
theorem stranded_stays (h : start.run as = some s) (h0 : start.tables.Believable) {r : Redemption}
    {o : WebhookOutbox} (hst : start.Stranded s r o) {bs : List (Action ι Choice)}
    (hbs : s.run postgres bs = some s') : start.Stranded s' r o := by
  induction bs using List.reverseRecOn generalizing s' with
  | nil =>
    obtain rfl : s = s' := Option.some.inj hbs
    exact hst
  | append_singleton bs act ih =>
    rw [Sys.run_snoc, Option.bind_eq_some_iff] at hbs
    obtain ⟨s₁, hs₁, hstep⟩ := hbs
    have hrun : start.run (as ++ bs) = some s₁ := Start.run_append h hs₁
    exact (ih hs₁).step ((Start.history hrun).believable h0) hrun hstep

/-- Two workers that run after a batch with a webhook was created and one of its codes redeemed. -/
def deliverTwo : Start (Fin 4) :=
  Start.of
    (fun
      | 0 => .createBatch ⟨"b", "", "{}", "", 8, 1, 2, 1, none, "https://x", "s", false, ""⟩
          (List.replicate 8 0)
      | 1 => .redeem ⟨"u", "AAAA-AAAA", "", ""⟩
      | _ => .worker 1)
    .empty ⟨0, 0, 0, 0, 0⟩ Tables.empty_below Tables.checkIntegrity_empty

/-- The first worker fails and has reported it in the outbox when the second one delivers the event;
the first one's report in the redemption comes last. -/
def overtakenRun : List (Action (Fin 4) Choice) :=
  List.replicate 5 (.exec 0 ⟨0, "", .unsent⟩) ++
    List.replicate 11 (.exec 1 ⟨0, hexText '1', .unsent⟩) ++
    List.replicate 7 (.exec 2 ⟨0, hexText '2', .response 500 []⟩) ++ [.tick 60000000] ++
    List.replicate 7 (.exec 3 ⟨0, hexText '3', .response 200 []⟩) ++
    [.exec 2 ⟨0, hexText '2', .response 500 []⟩]

omit [DecidableEq ι] in
/-- An idle worker is not about to report. -/
theorem Start.Reporting.not_idle (h : start.Reporting s i p) : s.idle i = false := by
  obtain ⟨-, k, hk⟩ := h
  simp only [State.idle, hk]

/-- What is shown after the run: the redemption is pending, and its event was delivered. -/
theorem overtakenRun_shows : (deliverTwo.run overtakenRun).map (fun s =>
    (s.db.tables.redemptions.rows.map fun r => (r.webhookStatus, r.eventId),
      s.db.tables.outbox.rows.map fun o => (o.status, o.eventId), decide (∀ i, s.idle i = true))) =
    some ([(.pending, some (hexText '1'))], [(.success, hexText '1')], true) := by
  decide +kernel

/-- The overtaken redemption is stranded for good. -/
theorem stranded_stays_overtaken : ∃ s r o, deliverTwo.run overtakenRun = some s ∧
    ∀ bs s', s.run postgres bs = some s' → deliverTwo.Stranded s' r o := by
  obtain ⟨s, hs, hshows⟩ := Option.map_eq_some_iff.mp overtakenRun_shows
  simp only [Prod.mk.injEq, List.map_eq_singleton_iff, decide_eq_true_eq] at hshows
  obtain ⟨⟨r, hr, hpending, hevent⟩, ⟨o, ho, hstatus, hid⟩, hidle⟩ := hshows
  refine ⟨s, r, o, hs, fun bs s' hbs => stranded_stays hs
    (Tables.Believable.of_empty deliverTwo.integrity rfl) ?_ hbs⟩
  refine ⟨?_, ?_, hpending, by rw [hevent, hid], ?_, fun i p hp => ?_⟩
  · rw [Table.mem_iff, hr]
    exact List.mem_singleton_self r
  · rw [Table.mem_iff, ho]
    exact List.mem_singleton_self o
  · rintro (hl | hl) <;> rw [hstatus] at hl <;> cases hl
  · have hbusy := hp.not_idle
    rw [hidle i] at hbusy
    cases hbusy

end CdkSystem
