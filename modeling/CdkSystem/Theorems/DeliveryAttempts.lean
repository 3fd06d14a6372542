import CdkSystem.Proof.Reporting

/-!
# The number of attempts

`markFailed` schedules another attempt only while the event's attempts are below `MaxAttempts`, so
an event that is live and not leased has an attempt left (`WithinBudget`). The lease query does not
look at the attempts: it takes over an event whose lease has expired even if its attempts are used
up, and then there are more than `MaxAttempts`.

A lease counts as an attempt when it is granted, before anything is sent. A worker that dies or
stalls between its lease and its report leaves an event that is pending with its lease expired, and
the next lease counts once more (`attempts_unbounded`). So the bound holds in exactly those runs in
which no lease takes over an event whose attempts are used up: one direction is the invariant, and
for the other one an event that has exceeded the bound stays so (`History.exceeded`).
-/

namespace CdkSystem

open RowLock Relational

variable {ι : Type} [DecidableEq ι] {start : Start ι} {log : List (Commit ι Tables)}
  {e : Commit ι Tables} {call : Call} {T : Tables} {max : ℤ}

/-- An event has been attempted at most `max` times, and it has an attempt left when it is live and
not leased. -/
structure WithinBudget (max : ℤ) (o : WebhookOutbox) : Prop where
  le : o.attempts ≤ max
  left : o.Live → o.leaseToken = none → o.attempts < max

/-- A commit takes over an expired lease of an event whose attempts are used up. -/
def TakesOverSpent (max : ℤ) (e : Commit ι Tables) : Prop :=
  ∃ (event o : WebhookOutbox), Leases e event ∧ e.before.outbox.get? event.id = some o ∧
    o.leaseToken.isSome = true ∧ max ≤ o.attempts

omit [DecidableEq ι] in
/-- An event is leased within its budget, unless a spent one is taken over. -/
theorem WithinBudget.lease {o : WebhookOutbox} (h : WithinBudget max o) (hlive : o.Live)
    {token : String} {expires : Time} (hl : Leases e (o.lease token expires))
    (ho : e.before.outbox.get? o.id = some o) (hspent : ¬ TakesOverSpent max e) :
    WithinBudget max (o.lease token expires) := by
  refine ⟨?_, fun _ hnone => by cases hnone⟩
  change o.attempts + 1 ≤ max
  by_cases hsome : o.leaseToken.isSome = true
  · by_contra hlt
    exact hspent ⟨_, o, hl, ho, hsome, by omega⟩
  · have hnone : o.leaseToken = none := by simpa using hsome
    have := h.left hlive hnone
    omega

/-- All events stay within their budgets, if leases have different tokens and no spent event is
taken over. -/
theorem History.withinBudget (h : History start log T)
    (hmax : 1 ≤ start.rt.config.maxAttempts)
    (h0 : ∀ o ∈ start.tables.outbox, WithinBudget start.rt.config.maxAttempts o)
    (hd : DistinctTokens log) (hspent : ∀ e ∈ log, ¬ TakesOverSpent start.rt.config.maxAttempts e) :
    ∀ o ∈ T.outbox, WithinBudget start.rt.config.maxAttempts o := by
  induction h with
  | start => exact h0
  | @commit log e h time he ih =>
    intro o ho
    have hih := ih hd.init fun e' he' => hspent e' (List.mem_append_left _ he')
    have hrow : e.after.outbox.get? o.id = some o := Table.get?_of_mem ho
    cases hold : e.before.outbox.get? o.id with
    | none =>
      have hzero := (he.new_event ho hold).1
      exact ⟨by omega, fun _ _ => by omega⟩
    | some o₀ =>
      have hid₀ : o₀.id = o.id := Table.key_of_get? hold
      have hbudget := hih o₀ (Table.mem_of_get? hold)
      rw [← hid₀] at hold hrow
      cases he.event_effect hold with
      | kept row =>
        rw [row, Option.some.injEq] at hrow
        exact hrow ▸ hbudget
      | leased live hleases row =>
        rw [row, Option.some.injEq] at hrow
        exact hrow ▸ hbudget.lease live hleases hold (hspent e (by simp))
      | @reported event report lease id token leased finishes retries row =>
        rw [row, Option.some.injEq] at hrow
        subst hrow
        refine ⟨hbudget.le, fun hlive _ => ?_⟩
        -- Another attempt is scheduled only if the leased event has one left.
        have hfailed : report.status = .failed := by
          have hlive' : report.status = .pending ∨ report.status = .failed := hlive
          rcases hlive' with hp | hf
          · rw [hp] at finishes
            simp at finishes
          · exact hf
        obtain ⟨e', he', hleases⟩ := lease
        have hheld := h.held_attempts hd.init e' he' event hleases o₀ (id ▸ hold) token
        have hlt := retries hfailed
        change o₀.attempts < _
        omega

omit [DecidableEq ι] in
/-- Later there are at least as many leases. -/
theorem leaseCount_mono {log' : List (Commit ι Tables)} (h : log' <+: log) (id : ℕ) :
    leaseCount log' id ≤ leaseCount log id :=
  h.sublist.countP_le

/-- When a spent event has been taken over, it has too many attempts. -/
theorem History.exceeded (h : History start log T) (he : e ∈ log) (hspent : TakesOverSpent max e) :
    ∃ o ∈ T.outbox, max < o.attempts := by
  obtain ⟨event, o, hleases, ho, -, hmax⟩ := hspent
  obtain ⟨log', hfront, h', htransition⟩ := h.transition he
  obtain ⟨o', ho'⟩ := h.leased_row he hleases
  have hid : o.id = event.id := Table.key_of_get? ho
  have hid' : o'.id = event.id := Table.key_of_get? ho'
  -- The attempts are those of the start and the leases, and these only grow.
  have hbefore := h'.attempts_eq o (Table.mem_of_get? ho)
  have hnow := h.attempts_eq o' (Table.mem_of_get? ho')
  have hgrow := leaseCount_mono hfront event.id
  rw [leaseCount_lease hleases] at hgrow
  rw [hid] at hbefore
  rw [hid'] at hnow
  exact ⟨o', Table.mem_of_get? ho', by omega⟩

/-- In every run from events within their budgets: if all leases have different tokens and none
takes over an expired lease of an event whose attempts are used up, then no event is leased more
than `MaxAttempts` times; and only if none does. -/
theorem attempts_bounded_iff {as : List (Action ι Choice)} {s : State ι}
    (hmax : 1 ≤ start.rt.config.maxAttempts)
    (h0 : ∀ o ∈ start.tables.outbox, WithinBudget start.rt.config.maxAttempts o)
    (h : start.run as = some s) :
    (DistinctTokens s.db.log → (∀ e ∈ s.db.log, ¬ TakesOverSpent start.rt.config.maxAttempts e) →
      ∀ o ∈ s.db.tables.outbox, o.attempts ≤ start.rt.config.maxAttempts) ∧
    ((∀ o ∈ s.db.tables.outbox, o.attempts ≤ start.rt.config.maxAttempts) →
      ∀ e ∈ s.db.log, ¬ TakesOverSpent start.rt.config.maxAttempts e) := by
  have hhistory := Start.history h
  refine ⟨fun hd hspent o ho => (hhistory.withinBudget hmax h0 hd hspent o ho).le, ?_⟩
  intro hle e he hspent
  obtain ⟨o, ho, hlt⟩ := hhistory.exceeded he hspent
  have := hle o ho
  omega

/-- A delivery by a worker that does not stall takes over nothing. -/
theorem attempts_bounded_iff_delivered : ∃ s, deliverOne.run deliverOneRun = some s ∧
    ∀ e ∈ s.db.log, ¬ TakesOverSpent deliverOne.rt.config.maxAttempts e := by
  have hall : (deliverOne.run deliverOneRun).map (fun s =>
      s.db.tables.outbox.rows.all fun o => o.attempts ≤ 3) = some true := by
    decide +kernel
  obtain ⟨s, hs, hs'⟩ := Option.map_eq_some_iff.mp hall
  refine ⟨s, hs, (attempts_bounded_iff (by decide) (fun o ho => ?_) hs).2 fun o ho => ?_⟩
  · cases ho
  · exact of_decide_eq_true (List.all_eq_true.mp hs' o ho)

/-- Four workers stall one after another, each right after it has leased the event, and every time
the lease expires. -/
def stallRun : List (Action ℕ Choice) :=
  deliverOneRun.take 16 ++ [2, 3, 4, 5].flatMap fun i =>
    List.replicate 2 (.exec i ⟨0, hexText (Char.ofNat (48 + i)), .unsent⟩) ++ [.tick 120000000]

/-- The event has been leased more often than `MaxAttempts` times. -/
theorem attempts_unbounded : ∃ s, deliverOne.run stallRun = some s ∧
    ∃ o ∈ s.db.tables.outbox, deliverOne.rt.config.maxAttempts < o.attempts := by
  have hexceeded : (deliverOne.run stallRun).map (fun s =>
      s.db.tables.outbox.rows.any fun o => 3 < o.attempts) = some true := by
    decide +kernel
  obtain ⟨s, hs, hs'⟩ := Option.map_eq_some_iff.mp hexceeded
  obtain ⟨o, ho, hlt⟩ := List.any_eq_true.mp hs'
  exact ⟨s, hs, o, ho, of_decide_eq_true hlt⟩

end CdkSystem
