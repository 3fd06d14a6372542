import CdkSystem.Proof.Webhooks

/-!
# Leases of events

What a transition does to an event of the outbox (`Transition.event_effect`): it keeps it, leases it
once more, or reports on it under the token of an earlier lease, which the row then loses. From this
follow the facts about leases over whole histories: how many there were, that a token that was
reported under does not come back, and that a finished event stays as it is.
-/

namespace CdkSystem

open RowLock Relational

variable {ι : Type} {start : Start ι} {log : List (Commit ι Tables)} {e : Commit ι Tables}
  {call : Call} {o event : WebhookOutbox} {T : Tables}

/-- After a lease the row is the leased event. -/
theorem Leases.row (h : Leases e event) :
    e.after.outbox.get? event.id = some event := by
  obtain ⟨o, token, expires, hrow, -, rfl, hafter⟩ := h
  have : (e.before.outbox.modify o.id (WebhookOutbox.lease token expires)
      (WebhookOutbox.key_lease token expires)).get? o.id = some (o.lease token expires) := by
    rw [Table.get?_modify_self, hrow]
    rfl
  rw [hafter]
  exact this

/-- What a transition does to an event that was there before it. -/
inductive EventEffect (start : Start ι) (log : List (Commit ι Tables)) (e : Commit ι Tables)
    (o : WebhookOutbox) : Prop
  /-- Nothing. -/
  | kept (row : e.after.outbox.get? o.id = some o)
  /-- The event is leased once more. -/
  | leased {token expires} (live : o.Live) (h : Leases e (o.lease token expires))
      (row : e.after.outbox.get? o.id = some (o.lease token expires))
  /-- The event is reported on, under the token of an earlier lease. -/
  | reported {event : WebhookOutbox} {report : OutboxReport} (lease : ∃ e' ∈ log, Leases e' event)
      (id : event.id = o.id) (token : o.leaseToken = event.leaseToken)
      (leased : o.leaseToken.isSome = true)
      (finishes : report.status ∈ [WebhookStatus.success, .failed, .deadLetter])
      (retries : report.status = .failed → event.attempts < start.rt.config.maxAttempts)
      (row : e.after.outbox.get? o.id = some (o.update report))

/-- A call that is not a worker keeps the events that are there. -/
theorem WebhookEffect.kept {T T' : Tables} (h : WebhookEffect T T') {id : ℕ}
    (ho : T.outbox.get? id = some o) : T'.outbox.get? id = some o := by
  cases h with
  | same redemptions outbox => rw [outbox, ho]
  | redeemed new redemptions outbox status event => rw [outbox, ho]
  | announced new redemptions newEvent outbox status event row =>
    rw [outbox]
    exact Table.get?_insert_of_get? ho
  | resent row finished redemptions newEvent outboxEvent outbox event =>
    rw [outbox]
    exact Table.get?_insert_of_get? ho

/-- A new event has not been leased. -/
theorem WebhookEffect.new {T T' : Tables} (h : WebhookEffect T T') (ho : o ∈ T'.outbox) :
    o ∈ T.outbox ∨ o.attempts = 0 ∧ o.leaseToken = none := by
  cases h with
  | same redemptions outbox => exact Or.inl (outbox ▸ ho)
  | redeemed new redemptions outbox status event => exact Or.inl (outbox ▸ ho)
  | announced new redemptions newEvent outbox status event row =>
    rw [outbox] at ho
    rcases Table.mem_or_eq_of_mem_insert ho with ho | rfl
    · exact Or.inl ho
    · rw [row]
      exact Or.inr ⟨rfl, rfl⟩
  | resent row finished redemptions newEvent outboxEvent outbox event =>
    rw [outbox] at ho
    rcases Table.mem_or_eq_of_mem_insert ho with ho | rfl
    · exact Or.inl ho
    · rw [event]
      exact Or.inr ⟨rfl, rfl⟩

/-- An event after the change of one event. -/
theorem get?_outbox_modified (T' : Tables) {T : Tables} {id : ℕ} {f : WebhookOutbox → WebhookOutbox}
    (hf : ∀ r, key (f r) = key r) (h : T'.outbox = T.outbox.modify id f hf)
    (ho : T.outbox.get? o.id = some o) :
    T'.outbox.get? o.id = some (if o.id = id then f o else o) := by
  rw [h, Table.get?_modify]
  split_ifs with hid
  · rw [← hid, ho]
    rfl
  · exact ho

variable [DecidableEq ι]

/-- What a transition does to an event. -/
theorem Transition.event_effect (h : Transition start log e call)
    (ho : e.before.outbox.get? o.id = some o) : EventEffect start log e o := by
  by_cases hcall : ∀ turns, call ≠ .worker turns
  · exact .kept ((h.webhooks hcall).kept ho)
  cases h with
  | leased h =>
    have hleases := h
    obtain ⟨o', token, expires, ho', hlive, rfl, hafter⟩ := h
    have hrow := get?_outbox_modified e.after (WebhookOutbox.key_lease token expires)
      (by rw [hafter]; rfl) ho
    split_ifs at hrow with hid
    · have hsame : o' = o := by
        rw [hid, ho'] at ho
        exact Option.some.inj ho
      subst hsame
      exact .leased hlive hleases hrow
    · exact .kept hrow
  | @outboxReported turns o' event report lease row token leased finishes retries after =>
    have hrow := get?_outbox_modified e.after (WebhookOutbox.key_update report)
      (by rw [after]; rfl) ho
    split_ifs at hrow with hid
    · have hsame : o' = o := by
        rw [hid, row] at ho
        exact Option.some.inj ho
      subst hsame
      exact .reported lease hid.symm token leased finishes retries hrow
    · exact .kept hrow
  | redemptionReported report row event redemption current reports agrees after =>
    refine .kept ?_
    rw [after]
    exact ho
  | idle after =>
    refine .kept ?_
    rw [after]
    exact ho
  | deleted ids hmay after =>
    refine .kept ?_
    rw [after, applyAll_map_same Tables.outbox (fun _ _ => rfl)]
    exact ho
  | redeem | batchItem | batchStored | createdBatch | toggledBatch | toggledCode | resent
  | imported => exact (hcall fun _ => by rintro ⟨⟩).elim

/-- An event that a transition has inserted has not been leased. -/
theorem Transition.new_event (h : Transition start log e call) (ho : o ∈ e.after.outbox)
    (hnew : e.before.outbox.get? o.id = none) : o.attempts = 0 ∧ o.leaseToken = none := by
  by_cases hcall : ∀ turns, call ≠ .worker turns
  · refine ((h.webhooks hcall).new ho).resolve_left fun hold => ?_
    exact Table.get?_eq_none_iff.mp hnew o hold rfl
  -- A worker inserts no event.
  have hmodified : ∀ (id : ℕ) (f : WebhookOutbox → WebhookOutbox) (hf : ∀ r, key (f r) = key r),
      e.after.outbox = e.before.outbox.modify id f hf → False := by
    intro id f hf hmod
    rw [hmod] at ho
    obtain ⟨o', ho', rfl⟩ := Table.mem_modify.mp ho
    refine Table.get?_eq_none_iff.mp hnew o' ho' ?_
    split_ifs with hk
    · exact (hf o').symm
    · rfl
  have hsame : e.after.outbox = e.before.outbox → False := by
    intro hsame
    rw [hsame] at ho
    exact Table.get?_eq_none_iff.mp hnew o ho rfl
  cases h with
  | leased h =>
    obtain ⟨o', token, expires, -, -, rfl, hafter⟩ := h
    exact (hmodified _ _ (WebhookOutbox.key_lease token expires) (by rw [hafter]; rfl)).elim
  | outboxReported report lease row token leased finishes retries after =>
    exact (hmodified _ _ (WebhookOutbox.key_update report) (by rw [after]; rfl)).elim
  | redemptionReported report row event redemption current reports agrees after =>
    exact (hsame (by rw [after]; rfl)).elim
  | idle after => exact (hsame (by rw [after])).elim
  | deleted ids hmay after =>
    refine (hsame ?_).elim
    rw [after, applyAll_map_same Tables.outbox (fun _ _ => rfl)]
  | redeem | batchItem | batchStored | createdBatch | toggledBatch | toggledCode | resent
  | imported => exact (hcall fun _ => by rintro ⟨⟩).elim

/-! ## Finished events -/

omit [DecidableEq ι] in
/-- A lease counts an attempt. -/
theorem Leases.attempts (h : Leases e event) (ho : e.before.outbox.get? event.id = some o) :
    event.attempts = o.attempts + 1 := by
  obtain ⟨o', token, expires, ho', -, rfl, -⟩ := h
  have hsame : o' = o := by
    change e.before.outbox.get? o'.id = some o at ho
    rw [ho'] at ho
    exact Option.some.inj ho
  rw [hsame]
  rfl

omit [DecidableEq ι] in
/-- A leased event has a row before its lease. -/
theorem Leases.before (h : Leases e event) : ∃ o, e.before.outbox.get? event.id = some o := by
  obtain ⟨o, token, expires, ho, -, rfl, -⟩ := h
  exact ⟨o, ho⟩

omit [DecidableEq ι] in
/-- A leased event is pending, under a token. -/
theorem Leases.pending (h : Leases e event) :
    event.status = .pending ∧ ∃ token, event.leaseToken = some token := by
  obtain ⟨o, token, expires, -, -, rfl, -⟩ := h
  exact ⟨rfl, token, rfl⟩

/-- An event that was leased has a row. -/
theorem History.leased_row (h : History start log T) (he : e ∈ log) (hl : Leases e event) :
    ∃ o, T.outbox.get? event.id = some o := by
  obtain ⟨o, ho, -⟩ := (h.after (R := Evolves) Evolves.refl
    (fun _ _ _ _ he hT => hT.trans he.evolves) he).outbox _ _ hl.row
  exact ⟨o, ho⟩

/-- An event that is not live and has a token has not been leased in the history. -/
theorem History.unleased (h : History start log T) :
    ∀ o ∈ T.outbox, ¬ o.Live → o.leaseToken.isSome = true →
      ∀ e ∈ log, ∀ event, Leases e event → event.id ≠ o.id := by
  induction h with
  | start => simp
  | @commit log e h time he ih =>
    intro o ho hlive hsome e' he' event hleases hid
    have hrow := Table.get?_of_mem ho
    cases hold : e.before.outbox.get? o.id with
    -- A new event has no token yet.
    | none =>
      have hnone := (he.new_event ho hold).2
      rw [hnone] at hsome
      cases hsome
    | some o₀ =>
      have hid₀ : o₀.id = o.id := Table.key_of_get? hold
      have heffect := he.event_effect (hid₀ ▸ hold)
      rw [← hid₀] at hid
      change e.after.outbox.get? o.id = some o at hrow
      rw [← hid₀] at hrow
      cases heffect with
      | kept row =>
        rw [row, Option.some.injEq] at hrow
        subst hrow
        rcases List.mem_append.mp he' with he' | he'
        · exact ih o₀ (Table.mem_of_get? hold) hlive hsome e' he' event hleases hid
        · -- The last commit leases this event, and then the event is pending under a token.
          rw [List.mem_singleton.mp he'] at hleases
          have hevent := hleases.row
          rw [hid, row, Option.some.injEq] at hevent
          exact hlive (Or.inl (hevent ▸ hleases.pending.1))
      | leased live h row =>
        rw [row, Option.some.injEq] at hrow
        exact hlive (Or.inl (hrow ▸ rfl))
      | reported lease id token leased finishes retries row =>
        rw [row, Option.some.injEq] at hrow
        rw [← hrow] at hsome
        cases hsome

/-- An event that is not live stays as it is. -/
theorem History.finished_kept (h : History start log e.before)
    (he : Transition start log e call) (ho : e.before.outbox.get? o.id = some o)
    (hlive : ¬ o.Live) : e.after.outbox.get? o.id = some o := by
  cases he.event_effect ho with
  | kept row => exact row
  | leased live h row => exact (hlive live).elim
  | reported lease id token leased finishes retries row =>
    obtain ⟨e', he', hleases⟩ := lease
    exact (h.unleased o (Table.mem_of_get? ho) hlive leased e' he' _ hleases id).elim

/-! ## The number of leases -/

open Classical in
/-- The number of leases of an event. -/
noncomputable def leaseCount (log : List (Commit ι Tables)) (id : ℕ) : ℕ :=
  log.countP fun e => ∃ event, Leases e event ∧ event.id = id

open Classical in
omit [DecidableEq ι] in
/-- The number of leases after one commit more. -/
theorem leaseCount_append (log : List (Commit ι Tables)) (e : Commit ι Tables) (id : ℕ) :
    leaseCount (log ++ [e]) id =
      leaseCount log id + if ∃ event, Leases e event ∧ event.id = id then 1 else 0 := by
  unfold leaseCount
  rw [List.countP_append, List.countP_singleton]
  simp only [decide_eq_true_eq]

omit [DecidableEq ι] in
/-- A lease counts. -/
theorem leaseCount_lease (h : Leases e event) :
    leaseCount (log ++ [e]) event.id = leaseCount log event.id + 1 := by
  rw [leaseCount_append, if_pos ⟨event, h, rfl⟩]

omit [DecidableEq ι] in
/-- A commit after which an event has been attempted as often as before is no lease of it. -/
theorem leaseCount_of_attempts {id : ℕ} {o' : WebhookOutbox}
    (ho : e.before.outbox.get? id = some o) (ho' : e.after.outbox.get? id = some o')
    (hattempts : o'.attempts = o.attempts) : leaseCount (log ++ [e]) id = leaseCount log id := by
  rw [leaseCount_append, if_neg, Nat.add_zero]
  rintro ⟨event, hleases, rfl⟩
  have hcount := hleases.attempts ho
  have hrow := hleases.row
  rw [ho', Option.some.injEq] at hrow
  subst hrow
  omega

/-- An event without a row has not been leased. -/
theorem History.leaseCount_eq_zero (h : History start log T) {id : ℕ}
    (hnone : T.outbox.get? id = none) : leaseCount log id = 0 := by
  unfold leaseCount
  rw [List.countP_eq_zero]
  intro e he hleases
  simp only [decide_eq_true_eq] at hleases
  obtain ⟨event, hleases, rfl⟩ := hleases
  obtain ⟨o, ho⟩ := h.leased_row he hleases
  rw [hnone] at ho
  cases ho

/-- The attempts that an event has had at the start. -/
def Start.attempts (start : Start ι) (id : ℕ) : ℤ :=
  ((start.tables.outbox.get? id).map WebhookOutbox.attempts).getD 0

/-- An event's attempts are those of the start and its leases. -/
theorem History.attempts_eq (h : History start log T) :
    ∀ o ∈ T.outbox, o.attempts = start.attempts o.id + leaseCount log o.id := by
  induction h with
  | start =>
    intro o ho
    have hrow : start.tables.outbox.get? o.id = some o := Table.get?_of_mem ho
    simp [Start.attempts, hrow, leaseCount]
  | @commit log e h time he ih =>
    intro o ho
    have hrow : e.after.outbox.get? o.id = some o := Table.get?_of_mem ho
    cases hold : e.before.outbox.get? o.id with
    -- An event that was not there before the commit is new: it has no attempts and no leases.
    | none =>
      have hstart : start.tables.outbox.get? o.id = none := by
        rw [Option.eq_none_iff_forall_not_mem]
        intro o' ho'
        obtain ⟨o'', ho'', -⟩ := (h.evolves (Or.inl rfl)).outbox _ _ ho'
        rw [hold] at ho''
        cases ho''
      have hcount : leaseCount (log ++ [e]) o.id = 0 := by
        rw [leaseCount_append, if_neg, Nat.add_zero]
        · exact h.leaseCount_eq_zero hold
        · rintro ⟨event, hleases, hid⟩
          obtain ⟨o', ho'⟩ := hleases.before
          rw [hid, hold] at ho'
          cases ho'
      rw [(he.new_event ho hold).1, hcount]
      simp [Start.attempts, hstart]
    -- Otherwise the commit keeps the row, leases it or reports on it, and only a lease counts.
    | some o₀ =>
      have hid₀ : o₀.id = o.id := Table.key_of_get? hold
      have hih := ih o₀ (Table.mem_of_get? hold)
      rw [← hid₀] at hold hrow ⊢
      cases he.event_effect hold with
      | kept row =>
        rw [leaseCount_of_attempts hold row rfl, ← hih]
        rw [row, Option.some.injEq] at hrow
        rw [hrow]
      | leased live hleases row =>
        rw [row, Option.some.injEq] at hrow
        have hcount : leaseCount (log ++ [e]) (o₀.lease _ _).id =
            leaseCount log (o₀.lease _ _).id + 1 := leaseCount_lease hleases
        change leaseCount (log ++ [e]) o₀.id = leaseCount log o₀.id + 1 at hcount
        rw [hcount, ← hrow]
        change o₀.attempts + 1 = _
        rw [hih]
        push_cast
        ring
      | reported lease id token leased finishes retries row =>
        rw [leaseCount_of_attempts hold row rfl, ← hih]
        rw [row, Option.some.injEq] at hrow
        rw [← hrow]
        rfl

/-! ## Tokens -/

/-- The leases of some commits have different tokens. -/
def DistinctTokens (log : List (Commit ι Tables)) : Prop :=
  log.Pairwise fun e e' =>
    ∀ event event', Leases e event → Leases e' event' → event.leaseToken ≠ event'.leaseToken

/-- A commit reports on an event under a token. -/
def ReportsUnder (e : Commit ι Tables) (id : ℕ) (token : String) : Prop :=
  ∃ (o : WebhookOutbox) (report : OutboxReport), e.before.outbox.get? id = some o ∧
    o.leaseToken = some token ∧ e.after = e.before.apply (.updateWebhookOutbox id report)

variable {id : ℕ} {token : String}

omit [DecidableEq ι] in
/-- An earlier lease has another token than a later one. -/
theorem DistinctTokens.ne_of_mem (h : DistinctTokens (log ++ [e])) {e' : Commit ι Tables}
    (he' : e' ∈ log) {event' : WebhookOutbox} (hl' : Leases e' event') (hl : Leases e event) :
    event'.leaseToken ≠ event.leaseToken :=
  (List.pairwise_append.mp h).2.2 e' he' e (List.mem_singleton_self e) event' event hl' hl

omit [DecidableEq ι] in
/-- The leases before a commit have different tokens. -/
theorem DistinctTokens.init (h : DistinctTokens (log ++ [e])) : DistinctTokens log :=
  (List.pairwise_append.mp h).1

omit [DecidableEq ι] in
/-- After a report the row has no token. -/
theorem ReportsUnder.after (h : ReportsUnder e id token) :
    ∃ o, e.after.outbox.get? id = some o ∧ o.leaseToken = none := by
  obtain ⟨o, report, ho, -, hafter⟩ := h
  have hid : o.id = id := Table.key_of_get? ho
  subst hid
  have hrow := get?_outbox_modified e.after (WebhookOutbox.key_update report)
    (by rw [hafter]; rfl) ho
  rw [if_pos rfl] at hrow
  exact ⟨_, hrow, rfl⟩

/-- A report is made under the token of an earlier lease. -/
theorem ReportsUnder.lease (h : ReportsUnder e id token) (he : Transition start log e call) :
    ∃ e' ∈ log, ∃ event, Leases e' event ∧ event.leaseToken = some token := by
  obtain ⟨o', ho', hnone⟩ := h.after
  obtain ⟨o, report, ho, htoken, -⟩ := h
  have hid : o.id = id := Table.key_of_get? ho
  subst hid
  cases he.event_effect ho with
  | kept row =>
    rw [row, Option.some.injEq] at ho'
    rw [← ho', htoken] at hnone
    cases hnone
  | leased live h row =>
    rw [row, Option.some.injEq] at ho'
    rw [← ho'] at hnone
    cases hnone
  | reported lease id token' leased finishes retries row =>
    obtain ⟨e', he', hleases⟩ := lease
    exact ⟨e', he', _, hleases, token'.symm.trans htoken⟩

/-- A token under which a report was made does not come back. -/
theorem History.token_gone (h : History start log T) (hd : DistinctTokens log) :
    ∀ e ∈ log, ReportsUnder e id token → ∀ o, T.outbox.get? id = some o →
      o.leaseToken ≠ some token := by
  induction h with
  | start => simp
  | @commit log e h time he ih =>
    intro e' he' hreports o ho htoken
    have hid : o.id = id := Table.key_of_get? ho
    subst hid
    rcases List.mem_append.mp he' with he' | he'
    · cases hold : e.before.outbox.get? o.id with
      | none =>
        have hnone := (he.new_event (Table.mem_of_get? ho) hold).2
        rw [hnone] at htoken
        cases htoken
      | some o₀ =>
        have hid₀ : o₀.id = o.id := Table.key_of_get? hold
        have hgone := ih hd.init e' he' hreports o₀ hold
        rw [← hid₀] at hold ho
        cases he.event_effect hold with
        | kept row =>
          rw [row, Option.some.injEq] at ho
          exact hgone (ho ▸ htoken)
        | leased live hleases row =>
          -- The new lease has another token than the one that was reported under.
          rw [row, Option.some.injEq] at ho
          obtain ⟨log', hprefix, -, he''⟩ := h.transition he'
          obtain ⟨e₀, he₀, event, hl₀, htoken₀⟩ := hreports.lease he''
          have hmem : e₀ ∈ log := hprefix.subset (List.mem_append_left _ he₀)
          refine hd.ne_of_mem hmem hl₀ hleases ?_
          rw [htoken₀, ho, htoken]
        | reported lease id token' leased finishes retries row =>
          rw [row, Option.some.injEq] at ho
          rw [← ho] at htoken
          cases htoken
    · rw [List.mem_singleton.mp he'] at hreports
      obtain ⟨o', ho', hnone⟩ := hreports.after
      rw [ho, Option.some.injEq] at ho'
      rw [ho', hnone] at htoken
      cases htoken

/-- No two reports are made under one token. -/
theorem History.reports_pairwise (h : History start log T) (hd : DistinctTokens log) :
    log.Pairwise fun e e' => ∀ id token, ReportsUnder e id token → ¬ ReportsUnder e' id token := by
  induction h with
  | start => exact .nil
  | @commit log e h time he ih =>
    refine List.pairwise_append.mpr ⟨ih hd.init, List.pairwise_singleton _ _, ?_⟩
    intro e' he' e'' he'' id token hreports hreports'
    rw [List.mem_singleton.mp he''] at hreports'
    obtain ⟨o, report, ho, htoken, -⟩ := hreports'
    exact h.token_gone hd.init e' he' hreports o ho htoken

/-- While an event has the token of a lease, it has been attempted as often as after the lease. -/
theorem History.held_attempts (h : History start log T) (hd : DistinctTokens log) :
    ∀ e ∈ log, ∀ event, Leases e event → ∀ o, T.outbox.get? event.id = some o →
      o.leaseToken = event.leaseToken → o.attempts = event.attempts := by
  induction h with
  | start => simp
  | @commit log e h time he ih =>
    intro e' he' event hl o ho htoken
    obtain ⟨token, htoken'⟩ := hl.pending.2
    rcases List.mem_append.mp he' with he' | he'
    · obtain ⟨o₀, hold⟩ := h.leased_row he' hl
      have hid₀ : o₀.id = event.id := Table.key_of_get? hold
      have hih := ih hd.init e' he' event hl o₀ hold
      rw [← hid₀] at hold ho
      cases he.event_effect hold with
      | kept row =>
        rw [row, Option.some.injEq] at ho
        exact ho ▸ hih (ho ▸ htoken)
      | leased live hleases row =>
        rw [row, Option.some.injEq] at ho
        exact (hd.ne_of_mem he' hl hleases (by rw [ho, htoken])).elim
      | reported lease id token' leased finishes retries row =>
        rw [row, Option.some.injEq] at ho
        rw [← ho, htoken'] at htoken
        cases htoken
    · rw [List.mem_singleton.mp he'] at hl
      rw [hl.row, Option.some.injEq] at ho
      rw [ho]

end CdkSystem
