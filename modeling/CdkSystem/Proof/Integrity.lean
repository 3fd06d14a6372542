import CdkSystem.Proof.Transitions

/-!
# The constraints of the schema hold in every history

`Write.Fits` is what a change needs so that the constraints hold after it
(`Tables.Integrity.apply`). The changes of a transition fit one after another, so the constraints
hold in all tables of a history (`History.integrity`), and with them what transitions preserve from
the start on.

The order of the changes matters: a redemption refers to its code and its key, and an event to its
redemption, so each row is inserted after the ones that it refers to. `toggleStatus` and its
relatives keep the columns that the constraints are about.
-/

namespace CdkSystem

open RowLock Relational

/-- What a change needs for the constraints of the schema to hold after it. -/
def Write.Fits (T : Tables) : Write → Prop
  | .createBatch b => b.Valid
  | .createCode c => (∃ b, T.batches.get? c.batchId = some b) ∧ ¬ T.HasCodeText c.code
  | .createRedemption r =>
    (∀ id, r.codeId = some id → ∃ c, T.codes.get? id = some c) ∧
      (∀ k, r.idempotencyKey = some k → ∃ row, T.keys.get? k = some row) ∧
      ∀ event, r.eventId = some event → ¬ T.HasRedemptionEvent event
  | .prepareRedemptionWebhookResend _ event => ¬ T.HasRedemptionEvent event
  | .createWebhookOutboxEvent o =>
    (∃ r, T.redemptions.get? o.redemptionId = some r) ∧ ¬ T.HasOutboxEvent o.eventId
  | _ => True

/-- A toggled batch is valid if the batch was. -/
theorem Batch.Valid.toggleStatus {b : Batch} (h : b.Valid) : b.toggleStatus.Valid :=
  ⟨⟨h.name, h.description, h.codePrefix, h.codeLength, h.maxUses, h.maxRedeems, h.webhookUrl,
    h.plan, h.planRequired⟩, h.texts, h.payload⟩

section Rows

variable {R K V : Type} [HasKey R K] [DecidableEq K]

/-- The row of a key exists after a change if it existed before. -/
theorem Table.Kept.exists {later : R → R → Prop} {t t' : Table R} (h : Table.Kept later t t')
    {k : K} (hk : ∃ r, t.get? k = some r) : ∃ r, t'.get? k = some r := by
  obtain ⟨r, hr⟩ := hk
  obtain ⟨r', hr', -⟩ := h k r hr
  exact ⟨r', hr'⟩

/-- A value that determines the row still does after the insertion of a row with a new value. -/
theorem unique_insert {t : Table R} {x : R} (p : R → R → Prop) (hsymm : ∀ r r', p r r' → p r' r)
    (h : ∀ r ∈ t, ∀ r' ∈ t, p r r' → r = r') (hx : ∀ r ∈ t, ¬ p r x) :
    ∀ r ∈ t.insert x, ∀ r' ∈ t.insert x, p r r' → r = r' := by
  intro r hr r' hr' hp
  rcases Table.mem_or_eq_of_mem_insert hr with hr | he <;>
    rcases Table.mem_or_eq_of_mem_insert hr' with hr' | he'
  · exact h r hr r' hr' hp
  · exact absurd (he' ▸ hp) (hx r hr)
  · exact absurd (hsymm _ _ (he ▸ hp)) (hx r' hr')
  · rw [he, he']

/-- A value that determines the row still does after a change that does not touch it. -/
theorem unique_modify {t : Table R} {k : K} {f : R → R} (hf : ∀ r, key (f r) = key r)
    (p : R → R → Prop) (hl : ∀ r r', p (f r) r' → p r r') (hr : ∀ r r', p r (f r') → p r r')
    (h : ∀ r ∈ t, ∀ r' ∈ t, p r r' → r = r') :
    ∀ r ∈ t.modify k f hf, ∀ r' ∈ t.modify k f hf, p r r' → r = r' := by
  intro x hx x' hx' hp
  obtain ⟨r, hm, rfl⟩ := Table.mem_modify.mp hx
  obtain ⟨r', hm', rfl⟩ := Table.mem_modify.mp hx'
  have : r = r' := by
    refine h r hm r' hm' ?_
    split_ifs at hp
    · exact hl _ _ (hr _ _ hp)
    · exact hl _ _ hp
    · exact hr _ _ hp
    · exact hp
  rw [this]

end Rows

/-- A change that fits keeps the constraints. -/
theorem Tables.Integrity.apply {T : Tables} (h : T.Integrity) {w : Write} (hw : w.Fits T) :
    (T.apply w).Integrity := by
  have hT := Evolves.apply T w
  cases w with
  | createBatch b =>
    exact { h with
      batch := forall_mem_insert h.batch hw
      codeBatch := fun c hc => hT.batches.exists (h.codeBatch c hc) }
  | toggleBatchStatus id =>
    exact { h with
      batch := forall_mem_modify (by intro r; rfl) h.batch fun b hb => hb.toggleStatus
      codeBatch := fun c hc => hT.batches.exists (h.codeBatch c hc) }
  | createCode c =>
    exact { h with
      codeBatch := forall_mem_insert h.codeBatch hw.1
      codeText := unique_insert (fun (c c' : Code) => c.code = c'.code) (fun _ _ => Eq.symm)
        h.codeText fun r hr he => hw.2 ⟨r, hr, he⟩
      redemptionCode := fun r hr id hid => hT.codes.exists (h.redemptionCode r hr id hid) }
  | toggleCodeStatus id | incrementCodeUseCount id =>
    exact { h with
      codeBatch := forall_mem_modify (by intro r; rfl) h.codeBatch fun _ hr => hr
      codeText := by
        refine unique_modify (by intro r; rfl) (fun (c c' : Code) => c.code = c'.code) ?_ ?_
          h.codeText <;> exact fun _ _ he => he
      redemptionCode := fun r hr id hid => hT.codes.exists (h.redemptionCode r hr id hid) }
  | createCredential c | markCredentialUsed id r | deleteCredential id => exact { h with }
  | createIdempotencyKey k | setIdempotencyResponse k body =>
    exact { h with
      redemptionKey := fun r hr k hk => hT.keys.exists (h.redemptionKey r hr k hk) }
  | createRedemption r =>
    obtain ⟨hcode, hkey, hevent⟩ := hw
    refine { h with
      redemptionCode := forall_mem_insert h.redemptionCode hcode
      redemptionKey := forall_mem_insert h.redemptionKey hkey
      redemptionEvent := ?_
      outboxRedemption := fun o ho => hT.redemptions.exists (h.outboxRedemption o ho) }
    intro x hx x' hx' event he he'
    refine unique_insert
      (fun (x x' : Redemption) => x.eventId = some event ∧ x'.eventId = some event)
      (fun _ _ => And.symm) (fun y hy y' hy' hp => h.redemptionEvent y hy y' hy' event hp.1 hp.2)
      (fun y hy hp => hevent event hp.2 ⟨y, hy, hp.1⟩) x hx x' hx' ⟨he, he'⟩
  | updateRedemptionWebhookStatus id report =>
    refine { h with
      redemptionCode := forall_mem_modify (by intro r; rfl) h.redemptionCode fun _ hr => hr
      redemptionKey := forall_mem_modify (by intro r; rfl) h.redemptionKey fun _ hr => hr
      redemptionEvent := ?_
      outboxRedemption := fun o ho => hT.redemptions.exists (h.outboxRedemption o ho) }
    intro x hx x' hx' event he he'
    refine unique_modify (by intro r; rfl)
      (fun (x x' : Redemption) => x.eventId = some event ∧ x'.eventId = some event) ?_ ?_
      (fun y hy y' hy' hp => h.redemptionEvent y hy y' hy' event hp.1 hp.2)
      x hx x' hx' ⟨he, he'⟩ <;>
      exact fun _ _ hp => hp
  | prepareRedemptionWebhookResend id event =>
    refine { h with
      redemptionCode := forall_mem_modify (by intro r; rfl) h.redemptionCode fun _ hr => hr
      redemptionKey := forall_mem_modify (by intro r; rfl) h.redemptionKey fun _ hr => hr
      redemptionEvent := ?_
      outboxRedemption := fun o ho => hT.redemptions.exists (h.outboxRedemption o ho) }
    intro x hx x' hx' event' he he'
    change _ ∈ T.redemptions.modify id _ (Redemption.key_prepareResend event) at hx hx'
    obtain ⟨r, hr, rfl⟩ := Table.mem_modify.mp hx
    obtain ⟨r', hr', rfl⟩ := Table.mem_modify.mp hx'
    -- The prepared row is the only one with the new event.
    by_cases hk : key r = id <;> by_cases hk' : key r' = id
    · rw [Table.key_injective hr hr' (hk.trans hk'.symm)]
    · rw [if_pos hk] at he
      rw [if_neg hk'] at he'
      cases he
      exact absurd ⟨r', hr', he'⟩ hw
    · rw [if_neg hk] at he
      rw [if_pos hk'] at he'
      cases he'
      exact absurd ⟨r, hr, he⟩ hw
    · rw [if_neg hk] at he ⊢
      rw [if_neg hk'] at he' ⊢
      exact h.redemptionEvent r hr r' hr' event' he he'
  | createWebhookOutboxEvent o =>
    exact { h with
      outboxRedemption := forall_mem_insert h.outboxRedemption hw.1
      outboxEvent := unique_insert (fun (o o' : WebhookOutbox) => o.eventId = o'.eventId)
        (fun _ _ => Eq.symm) h.outboxEvent fun r hr he => hw.2 ⟨r, hr, he⟩ }
  | leaseWebhookOutboxEvent id token expires | updateWebhookOutbox id report =>
    exact { h with
      outboxRedemption := forall_mem_modify (by intro r; rfl) h.outboxRedemption fun _ hr => hr
      outboxEvent := by
        refine unique_modify (by intro r; rfl)
          (fun (o o' : WebhookOutbox) => o.eventId = o'.eventId) ?_ ?_ h.outboxEvent <;>
          exact fun _ _ he => he }

/-! ## Lists of changes -/

/-- Each change of a list fits the tables that those before it leave. -/
def FitsAll (T : Tables) : List Write → Prop
  | [] => True
  | w :: ws => w.Fits T ∧ FitsAll (T.apply w) ws

/-- The second part of a list has to fit what the first part leaves. -/
theorem fitsAll_append {T : Tables} {ws ws' : List Write} :
    FitsAll T (ws ++ ws') ↔ FitsAll T ws ∧ FitsAll (postgres.applyAll T ws) ws' := by
  induction ws generalizing T with
  | nil => simp [FitsAll]
  | cons w ws ih =>
    rw [List.cons_append, FitsAll, FitsAll, ih, and_assoc]
    rfl

/-- Changes that need nothing of the tables fit, one after the other. -/
theorem fitsAll_of_forall {T : Tables} {ws : List Write} (h : ∀ w ∈ ws, ∀ T, w.Fits T) :
    FitsAll T ws := by
  induction ws generalizing T with
  | nil => trivial
  | cons w ws ih => exact ⟨h w (by simp) T, ih fun w' hw' => h w' (by simp [hw'])⟩

/-- Changes that fit keep the constraints, applied one after another. -/
theorem Tables.Integrity.applyAll {T : Tables} (h : T.Integrity) {ws : List Write}
    (hws : FitsAll T ws) : (postgres.applyAll T ws).Integrity := by
  induction ws generalizing T with
  | nil => exact h
  | cons w ws ih => exact ih (h.apply hws.1) hws.2

/-- Claiming a key needs nothing of the tables, so it fits any of them. -/
theorem fitsAll_openKey {T T' : Tables} {key : String} {hash : List UInt8} :
    FitsAll T (openKey T' key hash) := by
  unfold openKey
  split_ifs <;> simp [FitsAll, Write.Fits]

/-- Storing a response needs nothing of the tables, so it fits any of them. -/
theorem fitsAll_closeKey {T : Tables} {key : String} {body : Json} :
    FitsAll T (closeKey key body) := by
  unfold closeKey
  split_ifs <;> simp [FitsAll, Write.Fits]

/-- A key that was claimed has a row, the one from before or the new one. -/
theorem get?_openKey (T : Tables) {key : String} (hash : List UInt8) (hk : key ≠ "") :
    ∃ row, (postgres.applyAll T (openKey T key hash)).keys.get? key = some row := by
  unfold openKey
  cases hrow : T.keys.get? key with
  | some row => exact ⟨row, by simp [hk, hrow]⟩
  | none =>
    have hnone : T.keys.get? (Relational.key (⟨key, hash, none⟩ : IdempotencyKey)) = none := hrow
    rw [if_neg (by simp [hk])]
    exact ⟨_, Table.get?_insert_self hnone⟩

/-- Claiming a key leaves the other tables as they are. -/
theorem applyAll_openKey_same {α : Type} (f : Tables → α)
    (h : ∀ (T : Tables) keys, f { T with keys := keys } = f T) (T T' : Tables) (key : String)
    (hash : List UInt8) : f (postgres.applyAll T (openKey T' key hash)) = f T := by
  unfold openKey
  split_ifs
  · rfl
  · exact h T _

/-- A text that is not empty is its own pointer. -/
theorem stringPtr_eq_some {s t : String} : stringPtr s = some t ↔ s = t ∧ s ≠ "" := by
  unfold stringPtr
  split_ifs with h
  · simp [h]
  · simp [h]

section Redemptions

variable {ι : Type} {e : Commit ι Tables} {past : Tables → Prop} {req : RedeemRequest}
  {T : Tables} {clock time : Time}

/-- The code that a business failure refers to exists. -/
theorem Refusal.exists_code {text : String} {codeID batchID : Option ℕ} {resp : RedeemResponse}
    (h : Refusal clock time past T text codeID batchID resp) {id : ℕ} (hid : codeID = some id) :
    ∃ c, T.codes.get? id = some c := by
  cases h with
  | invalidCode hpast hnone => cases hid
  | state found hnow hcheck =>
    cases hid
    exact ⟨_, found.row⟩
  | noCredential found hnow hcheck hassign =>
    cases hid
    exact ⟨_, found.row⟩

/-- The changes of a business failure fit. -/
theorem Refusal.fits {rt : Runtime} {codeID batchID : Option ℕ} {resp : RedeemResponse} {id : ℕ}
    {createdAt : Time} {body : Json}
    (h : Refusal clock time past T (normalizeCode req.code) codeID batchID resp) :
    FitsAll T (openKey T req.idempotencyKey (hashRequest rt req) ++
      [.createRedemption (refusedRow rt req codeID batchID resp result id createdAt)] ++
      closeKey req.idempotencyKey body) := by
  rw [fitsAll_append, fitsAll_append]
  refine ⟨⟨fitsAll_openKey, ⟨fun id hid => ?_, fun k hk => ?_, fun event he => ?_⟩, trivial⟩,
    fitsAll_closeKey⟩
  · rw [applyAll_openKey_same Tables.codes fun _ _ => rfl]
    exact h.exists_code hid
  · obtain ⟨rfl, hne⟩ := stringPtr_eq_some.mp hk
    exact get?_openKey T _ hne
  · simp [refusedRow, redemptionParams, CreateRedemptionParams.row, stringPtr] at he

/-- The changes of a success fit the tables on which it was checked. -/
theorem Grant.InOrder.fits {g : Grant} {rt : Runtime} {body : Json}
    (h : g.InOrder rt clock time past T req) :
    FitsAll T (openKey T req.idempotencyKey (hashRequest rt req) ++ g.writes ++
      closeKey req.idempotencyKey body) := by
  have hrow := h.row
  have hcode : g.redemption.codeId = some g.code.id := by rw [hrow]; rfl
  have hkey : g.redemption.idempotencyKey = stringPtr req.idempotencyKey := by rw [hrow]; rfl
  have hevent : g.redemption.eventId = stringPtr g.event := by rw [hrow]; rfl
  have hred : ∀ T' : Tables, (T'.apply (.incrementCodeUseCount g.code.id)).redemptions =
      T'.redemptions := fun _ => rfl
  rw [fitsAll_append, fitsAll_append, Grant.writes, fitsAll_append, fitsAll_append]
  refine ⟨⟨fitsAll_openKey, ⟨⟨trivial, ⟨fun id hid => ?_, fun k hk => ?_, fun event he => ?_⟩,
    trivial⟩, ?_⟩, fitsAll_of_forall fun w hw T' => ?_⟩, fitsAll_closeKey⟩
  · -- The code that the redemption refers to is in the table.
    rw [hcode, Option.some.injEq] at hid
    subst hid
    refine (Evolves.apply _ _).codes.exists ?_
    rw [applyAll_openKey_same Tables.codes fun _ _ => rfl]
    exact ⟨_, h.found.row⟩
  · -- The key's row was inserted before the redemption, or it was there already.
    rw [hkey] at hk
    obtain ⟨rfl, hne⟩ := stringPtr_eq_some.mp hk
    exact get?_openKey T _ hne
  · -- A new event is in no other redemption.
    rw [hevent] at he
    obtain ⟨rfl, hne⟩ := stringPtr_eq_some.mp he
    have hurl : g.batch.webhookUrl ≠ "" := fun hu => hne (h.announces.none hu)
    rw [Tables.HasRedemptionEvent, hred, applyAll_openKey_same Tables.redemptions fun _ _ => rfl]
    exact h.announces.redemptionEvent hurl
  · -- The event's row refers to the redemption that was just inserted.
    unfold Grant.outboxWrites
    split_ifs with hurl
    · trivial
    · have ho := h.announces.row hurl
      refine ⟨⟨?_, ?_⟩, trivial⟩
      · have hid : g.outbox.redemptionId = g.redemption.id := by rw [ho]; rfl
        have hnone : ∀ T' : Tables, T'.redemptions = T.redemptions →
            T'.redemptions.get? (key g.redemption) = none := fun T' hT' => hT' ▸ h.new
        rw [hid]
        refine ⟨g.redemption, Table.get?_insert_self (hnone _ ?_)⟩
        exact applyAll_openKey_same Tables.redemptions (fun _ _ => rfl) _ _ _ _
      · have hid : g.outbox.eventId = g.event := by rw [ho]; rfl
        have hsame : ∀ T' : Tables, (postgres.applyAll T' [.incrementCodeUseCount g.code.id,
            .createRedemption g.redemption]).outbox = T'.outbox := fun _ => rfl
        rw [hid, Tables.HasOutboxEvent, hsame, applyAll_openKey_same Tables.outbox fun _ _ => rfl]
        exact h.announces.outboxEvent hurl
  · -- Marking a credential is free of constraints.
    unfold Grant.credentialWrites at hw
    split at hw
    · cases hw
    · rw [List.mem_singleton] at hw
      subst hw
      trivial

/-- A redemption keeps the constraints, whether it succeeds or is refused. -/
theorem Redeemed.integrity {rt : Runtime} {resp : RedeemResponse}
    (h : Redeemed rt clock past req e resp) (hT : e.before.Integrity) : e.after.Integrity := by
  cases h with
  | refused reason known new hcreated free after => exact after ▸ hT.applyAll reason.fits
  | succeeded inOrder response free after => exact after ▸ hT.applyAll inOrder.fits

end Redemptions

/-! ## Transitions and histories -/

/-- New codes of batches that exist fit. -/
theorem fitsAll_createCodes {T : Tables} {cs : List Code}
    (hbatch : ∀ c ∈ cs, ∃ b, T.batches.get? c.batchId = some b)
    (htext : ∀ c ∈ cs, ¬ T.HasCodeText c.code) (hnodup : (cs.map Code.code).Nodup) :
    FitsAll T (cs.map .createCode) := by
  induction cs generalizing T with
  | nil => trivial
  | cons c cs ih =>
    rw [List.map_cons, List.nodup_cons] at hnodup
    refine ⟨⟨hbatch c (by simp), htext c (by simp)⟩, ih (fun c' hc' => hbatch c' (by simp [hc']))
      (fun c' hc' => ?_) hnodup.2⟩
    rintro ⟨x, hx, he⟩
    rcases Table.mem_or_eq_of_mem_insert hx with hx | rfl
    · exact htext c' (by simp [hc']) ⟨x, hx, he⟩
    · exact hnodup.1 (he ▸ List.mem_map_of_mem hc')

section Histories

variable {ι : Type} [DecidableEq ι] {start : Start ι} {log : List (Commit ι Tables)}
  {e : Commit ι Tables} {call : Call} {T T' : Tables}

/-- A transition keeps the constraints, whatever call has made it. -/
theorem Transition.integrity (h : Transition start log e call) (hT : e.before.Integrity) :
    e.after.Integrity := by
  cases h with
  -- Only insertions have to fit: the other changes keep the columns that constraints are about.
  | idle after => exact after ▸ hT
  | redeem h => exact h.integrity hT
  | batchItem hcode h => exact h.integrity hT
  | batchStored hkey tally all free after =>
    exact after ▸ hT.applyAll (fitsAll_append.mpr ⟨fitsAll_openKey, fitsAll_closeKey⟩)
  | @createdBatch req draws b cs h =>
    refine h.after ▸ hT.applyAll ⟨h.batch.valid, fitsAll_createCodes (fun c hc => ?_)
      (fun c hc => ?_) h.texts⟩
    · rw [(h.codes c hc).batch]
      have hnone : e.before.batches.get? (key b) = none := h.batch.new
      exact ⟨b, Table.get?_insert_self hnone⟩
    · exact (h.codes c hc).text
  | leased h =>
    obtain ⟨o, token, expires, -, -, -, after⟩ := h
    exact after ▸ hT.apply trivial
  | toggledBatch after | toggledCode after
  | outboxReported report lease row token leased finishes retries after
  | redemptionReported report row event redemption current reports agrees after =>
    exact after ▸ hT.apply trivial
  | @resent id event r o row success finished redemptionEvent new outboxEvent outbox after =>
    have hid : o.redemptionId = id := by rw [outbox]; rfl
    have he : o.eventId = event := by rw [outbox]; rfl
    refine after ▸ hT.applyAll ⟨redemptionEvent, ⟨?_, ?_⟩, trivial⟩
    · rw [hid]
      exact (Evolves.apply _ _).redemptions.exists ⟨r, row⟩
    · rw [he]
      exact outboxEvent
  | imported new after =>
    refine after ▸ hT.applyAll (fitsAll_of_forall fun w hw T => ?_)
    obtain ⟨c, -, rfl⟩ := List.mem_map.mp hw
    trivial
  | deleted ids hcall after =>
    refine after ▸ hT.applyAll (fitsAll_of_forall fun w hw T => ?_)
    obtain ⟨c, -, rfl⟩ := List.mem_map.mp hw
    trivial

omit [DecidableEq ι] in
/-- The tables that were committed at some time, after one commit more. -/
theorem past_commit : Past (log ++ [e]) e.after T ↔ T = e.after ∨ Past log e.before T := by
  simp only [Past, List.mem_append, List.mem_singleton]
  constructor
  · rintro (h | ⟨e', he' | rfl, h⟩)
    · exact Or.inl h
    · exact Or.inr (Or.inr ⟨e', he', h⟩)
    · exact Or.inr (Or.inl h)
  · rintro (h | h | ⟨e', he', h⟩)
    · exact Or.inl h
    · exact Or.inr ⟨e, Or.inr rfl, h⟩
    · exact Or.inr ⟨e', Or.inl he', h⟩

/-- What holds at the start and is kept by all transitions holds at all times. -/
theorem History.forall_past {P : Tables → Prop} (h : History start log T) (h0 : P start.tables)
    (hstep : ∀ log e call, Transition start log e call → P e.before → P e.after) :
    ∀ T', Past log T T' → P T' := by
  induction h with
  | start =>
    rintro T' (rfl | ⟨e, he, -⟩)
    · exact h0
    · cases he
  | @commit log e h time he ih =>
    intro T' hT'
    rcases past_commit.mp hT' with rfl | hT'
    · exact hstep log e _ he (ih _ (Or.inl rfl))
    · exact ih T' hT'

/-- A commit makes a transition after the commits before it. -/
theorem History.transition (h : History start log T) (he : e ∈ log) :
    ∃ log', log' ++ [e] <+: log ∧ History start log' e.before ∧
      Transition start log' e (start.calls e.caller) := by
  induction h with
  | start => cases he
  | @commit log e' h time he' ih =>
    rcases List.mem_append.mp he with he | he
    · obtain ⟨log', hprefix, h'⟩ := ih he
      exact ⟨log', hprefix.trans (List.prefix_append _ _), h'⟩
    · rw [List.mem_singleton.mp he]
      exact ⟨log, List.prefix_refl _, h, he'⟩

/-- What relates the tables after a transition to all later ones relates those after a commit to the
current ones. -/
theorem History.after {R : Tables → Tables → Prop} (h : History start log T) (hrefl : ∀ T, R T T)
    (hstep : ∀ log e call T, Transition start log e call → R T e.before → R T e.after)
    (he : e ∈ log) : R e.after T := by
  induction h with
  | start => cases he
  | @commit log e' h time he' ih =>
    rcases List.mem_append.mp he with he | he
    · exact hstep log e' _ _ he' (ih he)
    · rw [List.mem_singleton.mp he]
      exact hrefl _

/-- A commit that stores a response leaves it in the key's row for good. -/
theorem History.keyed_row {key : String} {hash : List UInt8} {body : Json} (h : History start log T)
    (he : e ∈ log) (hk : key ≠ "") (hfree : KeyFree e.before key hash)
    (hkeys : e.after.keys = keyed e.before.keys key hash body) :
    T.keys.get? key = some ⟨key, hash, some body⟩ := by
  have hkept : KeysKept e.after T :=
    h.after (R := KeysKept) (fun _ => .of_eq rfl) (fun _ _ _ _ he hT => hT.trans he.keysKept) he
  have hrow : e.after.keys.get? key = some ⟨key, hash, some body⟩ := by
    rw [hkeys]
    exact get?_keyed_self hk hfree
  exact hkept key _ hrow rfl

/-- The constraints hold at all times, of the present tables and of those in the past. -/
theorem History.integrity (h : History start log T) (hT' : Past log T T') : T'.Integrity :=
  h.forall_past start.integrity (fun _ _ _ he hT => he.integrity hT) T' hT'

/-- The tables have evolved from the start. -/
theorem History.evolves (h : History start log T) (hT' : Past log T T') :
    Evolves start.tables T' :=
  h.forall_past (Evolves.refl _) (fun _ _ _ he hT => hT.trans he.evolves) T' hT'

/-- The credentials of the start have been handed out at most once. -/
theorem History.credentialsKept (h : History start log T) (hT' : Past log T T') :
    CredentialsKept start.seq.credentials start.tables T' :=
  h.forall_past (.of_eq rfl) (fun _ _ _ he hT => hT.trans he.credentialsKept) T' hT'

/-- The tables have evolved from all past ones. -/
theorem History.past_evolves (h : History start log T) (hT' : Past log T T') : Evolves T' T := by
  induction h with
  | start =>
    rcases hT' with rfl | ⟨e, he, -⟩
    · exact .refl _
    · cases he
  | @commit log e h time he ih =>
    rcases past_commit.mp hT' with rfl | hT'
    · exact .refl _
    · exact (ih hT').trans he.evolves

end Histories

end CdkSystem
