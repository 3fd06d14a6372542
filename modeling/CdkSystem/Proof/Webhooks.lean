import CdkSystem.Proof.Transitions
import CdkSystem.Proof.Integrity

/-!
# Redemptions and their events

What the transitions do to redemptions and to the outbox (`Transition.webhooks`), and that they keep
the two tables in agreement (`Tables.Believable`): an event that is still to be delivered is the
current one of its redemption, and a redemption whose webhook is finished has a current event that
is finished in the same way.

Of the transitions of calls other than workers only the status and the event of a redemption matter
here, so they are first reduced to the few effects that they can have on the two tables
(`WebhookEffect`).
-/

namespace CdkSystem

open RowLock Relational

/-- An event that is still to be delivered. -/
def WebhookOutbox.Live (o : WebhookOutbox) : Prop := o.status = .pending ∨ o.status = .failed

/-- A redemption whose webhook is finished. -/
def Redemption.Finished (r : Redemption) : Prop :=
  r.webhookStatus = .success ∨ r.webhookStatus = .deadLetter

/-- A redemption and its current event: the event is the redemption's, and it has the status that
the redemption shows. -/
structure Redemption.Shows (r : Redemption) (o : WebhookOutbox) : Prop where
  redemption : o.redemptionId = r.id
  event : r.eventId = some o.eventId
  status : o.status = r.webhookStatus

/-- Redemptions and outbox agree. -/
structure Tables.Believable (T : Tables) : Prop where
  current : ∀ o ∈ T.outbox, o.Live → ∀ r ∈ T.redemptions, r.id = o.redemptionId →
    r.eventId = some o.eventId
  finished : ∀ r ∈ T.redemptions, r.Finished → ∃ o ∈ T.outbox, r.Shows o
  settled : ∀ r ∈ T.redemptions, r.webhookStatus ≠ .failed
  leased : ∀ o ∈ T.outbox, o.leaseToken.isSome = true → o.status = .pending

/-- The redemptions after a report on one of them. -/
theorem mem_redemptions_reported {T : Tables} {id : ℕ} {report : WebhookReport} {r : Redemption}
    (h : r ∈ (T.apply (.updateRedemptionWebhookStatus id report)).redemptions) :
    ∃ r₀ ∈ T.redemptions, r = if key r₀ = id then r₀.updateWebhookStatus report else r₀ := by
  change r ∈ T.redemptions.modify id _ (Redemption.key_updateWebhookStatus report) at h
  exact Table.mem_modify.mp h

/-- What a call that is not a worker does to redemptions and outbox. -/
inductive WebhookEffect (T T' : Tables) : Prop
  /-- Nothing. -/
  | same (redemptions : T'.redemptions = T.redemptions) (outbox : T'.outbox = T.outbox)
  /-- A redemption without a webhook. -/
  | redeemed {r : Redemption} (new : T.redemptions.get? r.id = none)
      (redemptions : T'.redemptions = T.redemptions.insert r) (outbox : T'.outbox = T.outbox)
      (status : r.webhookStatus = .none) (event : r.eventId = none)
  /-- A redemption with an event. -/
  | announced {r : Redemption} {o : WebhookOutbox} (new : T.redemptions.get? r.id = none)
      (redemptions : T'.redemptions = T.redemptions.insert r)
      (newEvent : T.outbox.get? o.id = none) (outbox : T'.outbox = T.outbox.insert o)
      (status : r.webhookStatus = .pending) (event : r.eventId = some o.eventId)
      (row : o = newOutboxEvent o.id o.eventId r.id o.scheduledAt)
  /-- A new event for a redemption whose webhook is finished. -/
  | resent {r : Redemption} {o : WebhookOutbox} (row : T.redemptions.get? r.id = some r)
      (finished : r.webhookStatus ∈ [WebhookStatus.success, .failed, .deadLetter])
      (redemptions : T'.redemptions = T.redemptions.modify r.id (Redemption.prepareResend o.eventId)
        (Redemption.key_prepareResend o.eventId))
      (newEvent : T.outbox.get? o.id = none) (outboxEvent : ¬ T.HasOutboxEvent o.eventId)
      (outbox : T'.outbox = T.outbox.insert o)
      (event : o = newOutboxEvent o.id o.eventId r.id o.scheduledAt)

variable {ι : Type} {start : Start ι} {log : List (Commit ι Tables)} {e : Commit ι Tables}
  {call : Call}

/-- A redemption inserts its row, and the event of its webhook. -/
theorem Redeemed.webhooks {rt : Runtime} {clock : Time} {past : Tables → Prop} {req : RedeemRequest}
    {resp : RedeemResponse} (h : Redeemed rt clock past req e resp) :
    WebhookEffect e.before e.after := by
  cases h with
  | @refused codeID batchID resp result id createdAt reason known new hcreated free after =>
    exact .redeemed (r := refusedRow rt req codeID batchID resp result id createdAt) new
      (by rw [after, tables_refused]) (by rw [after, tables_refused]) rfl rfl
  | @succeeded g redeemedAt resp inOrder response free after =>
    have hred : e.after.redemptions = e.before.redemptions.insert g.redemption := by
      rw [after, tables_succeeded]
    have hout : e.after.outbox = g.outboxAfter e.before.outbox := by
      rw [after, tables_succeeded]
    have hstatus : g.redemption.webhookStatus = webhookStatus (g.batch.webhookUrl ≠ "") := by
      rw [inOrder.row]
      rfl
    have hevent : g.redemption.eventId = stringPtr g.event := by
      rw [inOrder.row]
      rfl
    unfold Grant.outboxAfter at hout
    split_ifs at hout with hurl
    · -- Without a webhook the redemption has no event and its status is `none`.
      refine .redeemed inOrder.new hred hout ?_ ?_
      · rw [hstatus]
        simp [webhookStatus, hurl]
      · rw [hevent, inOrder.announces.none hurl]
        rfl
    · -- With a webhook it is pending, and its event is in the outbox.
      have hrow := inOrder.announces.row hurl
      have hid : g.outbox.eventId = g.event := by rw [hrow]; rfl
      have hne : g.event ≠ "" := by
        intro hempty
        have hhex := inOrder.announces.random hurl
        rw [hempty] at hhex
        cases hhex
      refine .announced inOrder.new hred (inOrder.announces.outboxNew hurl) hout ?_ ?_ ?_
      · rw [hstatus]
        simp [webhookStatus, hurl]
      · rw [hevent, hid]
        simp [stringPtr, hne]
      · rw [hrow]
        rfl

variable [DecidableEq ι]

/-- What the transitions of all calls but the workers' do to redemptions and outbox. -/
theorem Transition.webhooks (h : Transition start log e call)
    (hcall : ∀ turns, call ≠ .worker turns) : WebhookEffect e.before e.after := by
  cases h with
  | idle after => exact .same (by rw [after]) (by rw [after])
  | redeem h => exact h.webhooks
  | batchItem hcode h => exact h.webhooks
  | batchStored hkey tally all free after =>
    exact .same (by rw [after, tables_stored]) (by rw [after, tables_stored])
  | @createdBatch req draws b cs h =>
    refine .same ?_ ?_
    · rw [h.after, Dbms.applyAll_cons]
      exact applyAll_map_same Tables.redemptions (fun _ _ => rfl) cs _
    · rw [h.after, Dbms.applyAll_cons]
      exact applyAll_map_same Tables.outbox (fun _ _ => rfl) cs _
  | toggledBatch after | toggledCode after => exact .same (by rw [after]; rfl) (by rw [after]; rfl)
  | @resent id event r o row success finished redemptionEvent new outboxEvent outbox after =>
    have hid : r.id = id := Table.key_of_get? row
    subst hid
    have hevent : o.eventId = event := by rw [outbox]; rfl
    subst hevent
    exact .resent row finished (by rw [after]; rfl) new outboxEvent (by rw [after]; rfl) outbox
  | imported new after =>
    refine .same ?_ ?_ <;> rw [after]
    · exact applyAll_map_same Tables.redemptions (fun _ _ => rfl) _ _
    · exact applyAll_map_same Tables.outbox (fun _ _ => rfl) _ _
  | deleted ids hcall after =>
    refine .same ?_ ?_ <;> rw [after]
    · exact applyAll_map_same Tables.redemptions (fun _ _ => rfl) _ _
    · exact applyAll_map_same Tables.outbox (fun _ _ => rfl) _ _
  -- These transitions are made by workers.
  | leased h => exact (hcall _ rfl).elim
  | outboxReported => exact (hcall _ rfl).elim
  | redemptionReported => exact (hcall _ rfl).elim

/-! ## The agreement is kept -/

section Believable

variable {T T' : Tables}

omit [DecidableEq ι] in
/-- The agreement is about redemptions and outbox. -/
theorem Tables.Believable.congr (h : T.Believable) (hr : T'.redemptions = T.redemptions)
    (ho : T'.outbox = T.outbox) : T'.Believable := by
  obtain ⟨h1, h2, h3, h4⟩ := h
  rw [← hr, ← ho] at h1 h2
  rw [← hr] at h3
  rw [← ho] at h4
  exact ⟨h1, h2, h3, h4⟩

omit [DecidableEq ι] in
/-- Without redemptions there is nothing to agree on. -/
theorem Tables.Believable.of_empty (hT : T.Integrity) (h : T.redemptions = ∅) : T.Believable := by
  have hnone : ∀ r, r ∉ T.redemptions := by
    intro r hr
    rw [h] at hr
    cases hr
  have hout : ∀ o, o ∉ T.outbox := by
    intro o ho
    obtain ⟨r, hr⟩ := hT.outboxRedemption o ho
    exact hnone r (Table.mem_of_get? hr)
  exact ⟨fun o ho => (hout o ho).elim, fun r hr => (hnone r hr).elim, fun r hr => (hnone r hr).elim,
    fun o ho => (hout o ho).elim⟩

omit [DecidableEq ι] in
/-- A redemption has at most one live event. -/
theorem Tables.Believable.live_unique (h : T.Believable) (hT : T.Integrity) {o o' : WebhookOutbox}
    (ho : o ∈ T.outbox) (ho' : o' ∈ T.outbox) (hlive : o.Live) (hlive' : o'.Live)
    (hid : o.redemptionId = o'.redemptionId) : o = o' := by
  obtain ⟨r, hr⟩ := hT.outboxRedemption o ho
  have hrid : r.id = o.redemptionId := Table.key_of_get? hr
  have hevent := h.current o ho hlive r (Table.mem_of_get? hr) hrid
  have hevent' := h.current o' ho' hlive' r (Table.mem_of_get? hr) (hrid.trans hid)
  rw [hevent, Option.some.injEq] at hevent'
  exact hT.outboxEvent o ho o' ho' hevent'

omit [DecidableEq ι] in
/-- An event of a redemption whose webhook is finished is not live. -/
theorem Tables.Believable.not_live (h : T.Believable) (hT : T.Integrity) {r : Redemption}
    {o : WebhookOutbox} (hr : r ∈ T.redemptions) (hfinished : r.Finished) (ho : o ∈ T.outbox)
    (hid : r.id = o.redemptionId) : ¬ o.Live := by
  intro hlive
  obtain ⟨o', ho', hshows⟩ := h.finished r hr hfinished
  have hevent := h.current o ho hlive r hr hid
  rw [hshows.event, Option.some.injEq] at hevent
  obtain rfl := hT.outboxEvent o' ho' o ho hevent
  have hstatus := hshows.status
  rcases hlive with hl | hl <;> rcases hfinished with hf | hf <;> rw [hl, hf] at hstatus <;>
    cases hstatus

omit [DecidableEq ι] in
/-- A new redemption is none that an event belongs to. -/
theorem redemption_ne_new (hT : T.Integrity) {r : Redemption}
    (hnew : T.redemptions.get? r.id = none)
    {o : WebhookOutbox} (ho : o ∈ T.outbox) : r.id ≠ o.redemptionId := by
  intro hid
  obtain ⟨r', hr'⟩ := hT.outboxRedemption o ho
  rw [← hid, hnew] at hr'
  cases hr'

omit [DecidableEq ι] in
/-- A finished redemption that was there before keeps its event when the outbox grows. -/
theorem Tables.Believable.finished_insert (h : T.Believable) {o : WebhookOutbox}
    (ho : T'.outbox = T.outbox.insert o) {r : Redemption} (hr : r ∈ T.redemptions)
    (hfinished : r.Finished) : ∃ o' ∈ T'.outbox, r.Shows o' := by
  obtain ⟨o', ho', hshows⟩ := h.finished r hr hfinished
  exact ⟨o', ho ▸ Table.mem_insert_of_mem ho', hshows⟩

omit [DecidableEq ι] in
/-- A call that is not a worker keeps the agreement. -/
theorem Tables.Believable.webhooks (h : T.Believable) (hT : T.Integrity)
    (he : WebhookEffect T T') : T'.Believable := by
  -- A new redemption is not finished, and no event of the outbox belongs to it yet.
  cases he with
  | same redemptions outbox => exact h.congr redemptions outbox
  | @redeemed r new redemptions outbox status event =>
    refine ⟨fun o ho hlive => ?_, ?_, ?_, by rw [outbox]; exact h.leased⟩
    · rw [redemptions]
      rw [outbox] at ho
      exact forall_mem_insert (h.current o ho hlive) fun hid =>
        (redemption_ne_new hT new ho hid).elim
    · rw [redemptions, outbox]
      refine forall_mem_insert h.finished fun hfinished => ?_
      rcases hfinished with hf | hf <;> rw [status] at hf <;> cases hf
    · rw [redemptions]
      refine forall_mem_insert h.settled ?_
      rw [status]
      decide
  | @announced r o new redemptions newEvent outbox status event row =>
    have hid : o.redemptionId = r.id := by rw [row]; rfl
    refine ⟨?_, ?_, ?_, ?_⟩
    · rw [redemptions, outbox]
      refine forall_mem_insert (fun o' ho' hlive => ?_) fun hlive => ?_
      · exact forall_mem_insert (h.current o' ho' hlive) fun hid' =>
          (redemption_ne_new hT new ho' hid').elim
      · refine forall_mem_insert (fun r' hr' hid' => ?_) fun _ => event
        exact (Table.get?_eq_none_iff.mp new r' hr' (hid'.trans hid)).elim
    · intro r' hr' hfinished
      rw [redemptions] at hr'
      rcases Table.mem_or_eq_of_mem_insert hr' with hr' | rfl
      · exact h.finished_insert outbox hr' hfinished
      · rcases hfinished with hf | hf <;> rw [status] at hf <;> cases hf
    · rw [redemptions]
      refine forall_mem_insert h.settled ?_
      rw [status]
      decide
    · rw [outbox]
      refine forall_mem_insert h.leased fun hsome => ?_
      rw [row] at hsome
      cases hsome
  | @resent r o row finished redemptions newEvent outboxEvent outbox event =>
    have hid : o.redemptionId = r.id := by rw [event]; rfl
    have hr : r ∈ T.redemptions := Table.mem_of_get? row
    -- A redemption whose webhook can be sent again is finished, since none is shown as failed.
    have hfinished : r.Finished := by
      have hsettled := h.settled r hr
      simp only [List.mem_cons, List.not_mem_nil, or_false] at finished
      unfold Redemption.Finished
      tauto
    refine ⟨?_, ?_, ?_, ?_⟩
    · intro o' ho' hlive r' hr' hid'
      rw [redemptions] at hr'
      rw [outbox] at ho'
      obtain ⟨r₀, hr₀, rfl⟩ := Table.mem_modify.mp hr'
      by_cases hkey : key r₀ = r.id
      · obtain rfl : r₀ = r := Table.key_injective hr₀ hr hkey
        rw [if_pos hkey] at hid' ⊢
        rcases Table.mem_or_eq_of_mem_insert ho' with ho' | rfl
        · -- No other event of the redemption is live.
          exact (h.not_live hT hr hfinished ho' hid' hlive).elim
        · rfl
      · rw [if_neg hkey] at hid' ⊢
        rcases Table.mem_or_eq_of_mem_insert ho' with ho' | rfl
        · exact h.current o' ho' hlive r₀ hr₀ hid'
        · exact (hkey (hid'.trans hid)).elim
    · intro r' hr' hfinished'
      rw [redemptions] at hr'
      obtain ⟨r₀, hr₀, rfl⟩ := Table.mem_modify.mp hr'
      split_ifs at hfinished' ⊢ with hkey
      · -- The redemption of the resend is pending now, and its event is the new one.
        rcases hfinished' with hf | hf <;> cases hf
      · exact h.finished_insert outbox hr₀ hfinished'
    · rw [redemptions]
      refine forall_mem_modify _ h.settled fun r' _ => ?_
      rintro ⟨⟩
    · rw [outbox]
      refine forall_mem_insert h.leased fun hsome => ?_
      rw [event] at hsome
      cases hsome

omit [DecidableEq ι] in
/-- A change of an event that keeps the rest of the row keeps the agreement, if the event is live
before and a lease makes it pending. -/
theorem Tables.Believable.modify_outbox (h : T.Believable) {id : ℕ} {o : WebhookOutbox}
    {f : WebhookOutbox → WebhookOutbox} (hf : ∀ r, key (f r) = key r)
    (hrow : T.outbox.get? id = some o) (hlive : o.Live)
    (hredemption : (f o).redemptionId = o.redemptionId)
    (hevent : (f o).eventId = o.eventId)
    (hlease : (f o).leaseToken.isSome = true → (f o).status = .pending)
    (hT : T.Integrity) (hr : T'.redemptions = T.redemptions)
    (ho : T'.outbox = T.outbox.modify id f hf) : T'.Believable := by
  have hmem : o ∈ T.outbox := Table.mem_of_get? hrow
  have hoid : key o = id := Table.key_of_get? hrow
  have hcases : ∀ o' ∈ T.outbox, key o' = id → o' = o := fun o' ho' hk =>
    Table.key_injective ho' hmem (hk.trans hoid.symm)
  refine ⟨?_, ?_, by rw [hr]; exact h.settled, ?_⟩
  · intro o' ho' hlive' r hr' hid
    rw [hr] at hr'
    rw [ho] at ho'
    obtain ⟨o₀, ho₀, rfl⟩ := Table.mem_modify.mp ho'
    split_ifs at hlive' hid ⊢ with hk
    · obtain rfl := hcases o₀ ho₀ hk
      rw [hevent]
      exact h.current o₀ ho₀ hlive r hr' (hid.trans hredemption)
    · exact h.current o₀ ho₀ hlive' r hr' hid
  · intro r hr' hfinished
    rw [hr] at hr'
    obtain ⟨o', ho', hshows⟩ := h.finished r hr' hfinished
    refine ⟨o', ?_, hshows⟩
    -- The event that a finished redemption shows is not live, so it is not the changed one.
    rw [ho, Table.mem_modify]
    refine ⟨o', ho', ?_⟩
    rw [if_neg fun hk => ?_]
    obtain rfl := hcases o' ho' hk
    exact h.not_live hT hr' hfinished ho' hshows.redemption.symm hlive
  · rw [ho]
    intro o' ho' hsome
    obtain ⟨o₀, ho₀, rfl⟩ := Table.mem_modify.mp ho'
    split_ifs at hsome ⊢ with hk
    · obtain rfl := hcases o₀ ho₀ hk
      exact hlease hsome
    · exact h.leased o₀ ho₀ hsome

omit [DecidableEq ι] in
/-- A report on a redemption that agrees with its current event keeps the agreement. -/
theorem Tables.Believable.modify_redemption (h : T.Believable) {r : Redemption} {o : WebhookOutbox}
    {report : WebhookReport} (hmem : o ∈ T.outbox) (hrow : T.redemptions.get? r.id = some r)
    (hredemption : o.redemptionId = r.id) (hcurrent : r.eventId = some o.eventId)
    (hreports : report.status ∈ [WebhookStatus.pending, .success, .deadLetter])
    (hagrees : report.status ≠ .pending → o.status = report.status)
    (hr : T'.redemptions = T.redemptions.modify r.id (Redemption.updateWebhookStatus report)
      (Redemption.key_updateWebhookStatus report))
    (ho : T'.outbox = T.outbox) : T'.Believable := by
  have hrmem : r ∈ T.redemptions := Table.mem_of_get? hrow
  refine ⟨?_, ?_, ?_, by rw [ho]; exact h.leased⟩
  · intro o' ho' hlive r' hr' hid
    rw [hr] at hr'
    rw [ho] at ho'
    obtain ⟨r₀, hr₀, rfl⟩ := Table.mem_modify.mp hr'
    -- The report keeps the event of the redemption.
    split_ifs at hid ⊢ with hk
    · exact h.current o' ho' hlive r₀ hr₀ hid
    · exact h.current o' ho' hlive r₀ hr₀ hid
  · intro r' hr' hfinished
    rw [hr] at hr'
    rw [ho]
    obtain ⟨r₀, hr₀, rfl⟩ := Table.mem_modify.mp hr'
    split_ifs at hfinished ⊢ with hk
    · -- The reported redemption is finished as its event is.
      obtain rfl : r₀ = r := Table.key_injective hr₀ hrmem hk
      refine ⟨o, hmem, hredemption, hcurrent, hagrees ?_⟩
      intro hpending
      have hp : report.status = .success ∨ report.status = .deadLetter := hfinished
      rcases hp with hp | hp <;> rw [hpending] at hp <;> cases hp
    · exact h.finished r₀ hr₀ hfinished
  · rw [hr]
    intro r' hr'
    obtain ⟨r₀, hr₀, rfl⟩ := Table.mem_modify.mp hr'
    split_ifs
    · change report.status ≠ .failed
      intro hf
      rw [hf] at hreports
      simp at hreports
    · exact h.settled r₀ hr₀

end Believable

/-- Every transition keeps the agreement. -/
theorem Transition.believable (h : Transition start log e call) (hT : e.before.Integrity)
    (hb : e.before.Believable) : e.after.Believable := by
  by_cases hcall : ∀ turns, call ≠ .worker turns
  · exact hb.webhooks hT (h.webhooks hcall)
  cases h with
  | leased h =>
    obtain ⟨o, token, expires, hrow, hlive, rfl, hafter⟩ := h
    refine hb.modify_outbox (WebhookOutbox.key_lease token expires) hrow hlive rfl rfl
      (fun _ => rfl) hT ?_ ?_ <;> rw [hafter] <;> rfl
  | @outboxReported turns o event report lease row token leased finishes retries after =>
    have hlive : o.Live := Or.inl (hb.leased o (Table.mem_of_get? row) leased)
    refine hb.modify_outbox (WebhookOutbox.key_update report) row hlive rfl rfl (fun hsome => ?_) hT
      ?_ ?_
    · cases hsome
    all_goals rw [after]; rfl
  | @redemptionReported turns r o report row event redemption current reports agrees after =>
    refine hb.modify_redemption (Table.mem_of_get? event) row redemption current reports agrees
      ?_ ?_ <;> rw [after] <;> rfl
  | idle after => exact after ▸ hb
  | deleted ids hmay after =>
    refine hb.congr ?_ ?_ <;> rw [after]
    · exact applyAll_map_same Tables.redemptions (fun _ _ => rfl) _ _
    · exact applyAll_map_same Tables.outbox (fun _ _ => rfl) _ _
  | redeem | batchItem | batchStored | createdBatch | toggledBatch | toggledCode | resent
  | imported => exact (hcall fun _ => by rintro ⟨⟩).elim

/-- Redemptions and outbox agree at all times, if they do at the start. -/
theorem History.believable {T : Tables} (h : History start log T) (h0 : start.tables.Believable) :
    T.Believable := by
  induction h with
  | start => exact h0
  | commit h time he ih => exact he.believable (h.integrity (Or.inl rfl)) ih

end CdkSystem
