import CdkSystem.Lib.Trace
import CdkSystem.Proof.Running

/-!
# Webhook details and their columns

A worker reports a delivery with the detail that `Deliver` has made of the answer. The columns of
the details hold texts of at most 500 characters, so the report is recorded only when the detail is
such a text. `truncate` keeps 500 characters of the body, but it leaves bytes that are not UTF-8 and
NUL characters in it, and an answer with another status than 2xx puts a prefix in front
(`delivery_recorded_iff`).
-/

namespace CdkSystem

open RowLock Relational

/-! ## The characters of a detail -/

/-- The bytes left behind their first character are fewer. -/
theorem length_drop_utf8Size {bytes : List UInt8} {b : UInt8} (c : Char) :
    ((b :: bytes).drop c.utf8Size).length ≤ bytes.length := by
  have hpos := c.utf8Size_pos
  rw [List.length_drop, List.length_cons]
  omega

/-- More turns than bytes make no difference. -/
theorem decodeRunes_of_le {fuel : ℕ} {bytes : List UInt8} (h : bytes.length ≤ fuel) :
    decodeRunes fuel bytes = runes bytes := by
  have hboth : ∀ (n fuel : ℕ) (bytes : List UInt8), bytes.length ≤ n → bytes.length ≤ fuel →
      decodeRunes fuel bytes = decodeRunes n bytes := by
    intro n
    induction n with
    | zero =>
      intro fuel bytes hn _
      have hnil : bytes = [] := List.eq_nil_of_length_eq_zero (by omega)
      rw [hnil, decodeRunes_nil, decodeRunes_nil]
    | succ n ih =>
      intro fuel bytes hn hfuel
      cases bytes with
      | nil => rw [decodeRunes_nil, decodeRunes_nil]
      | cons b bs =>
        simp only [List.length_cons] at hn hfuel
        obtain ⟨fuel, rfl⟩ := Nat.exists_eq_add_of_le' hfuel
        have hdrop : ∀ c : Char, ((b :: bs).drop c.utf8Size).length ≤ bs.length :=
          fun c => length_drop_utf8Size c
        rw [← Nat.add_assoc, decodeRunes, decodeRunes]
        cases firstRune? (b :: bs) with
        | none => rw [ih _ bs (by omega) (by omega)]
        | some c =>
          have hc := hdrop c
          dsimp only
          rw [ih _ _ (by omega) (by omega)]
  exact hboth _ _ _ le_rfl h

/-- The characters of a text with bytes behind it. -/
theorem runes_encodeRunes_append (cs : List Char) (bytes : List UInt8) :
    runes (encodeRunes cs ++ bytes) = cs ++ runes bytes := by
  have hlen := length_le_length_encodeRunes cs
  obtain ⟨n, hn⟩ : ∃ n, (encodeRunes cs ++ bytes).length = cs.length + n ∧ bytes.length ≤ n :=
    ⟨(encodeRunes cs).length - cs.length + bytes.length, by
      rw [List.length_append]; omega, by omega⟩
  rw [runes, hn.1, decodeRunes_encode, decodeRunes_of_le hn.2]

/-- The characters that `truncate` keeps are the first ones of the text. -/
theorem runes_truncate (s : List UInt8) (n : ℕ) : runes (truncate s n) = (runes s).take n := by
  unfold truncate
  split_ifs with h
  · rw [List.take_of_length_le h]
  · rw [runes_encodeRunes]

/-- The prefix that `Deliver` puts in front of the detail of a status. -/
def statusPrefix (status : ℕ) : String :=
  if 200 ≤ status ∧ status < 300 then "" else "http " ++ toString status ++ ": "

/-- The detail is the truncated body behind the prefix. -/
theorem detail_eq (rt : Runtime) (status : ℕ) (body : List UInt8) :
    (deliver rt (.response status body)).detail =
      bytesOfText (statusPrefix status) ++ responseDetail rt body := by
  unfold deliver statusPrefix
  dsimp only
  split_ifs
  · rfl
  · rfl

/-- The prefix with the status has no NUL character. -/
theorem nul_notMem_statusPrefix (status : ℕ) : '\x00' ∉ (statusPrefix status).toList := by
  unfold statusPrefix
  split_ifs
  · decide
  · intro h
    have hdigit : ∀ c ∈ (toString status).toList, c.isDigit = true := by
      intro c hc
      rw [Nat.toString_eq_repr] at hc
      exact Nat.isDigit_of_mem_toDigits (b := 10) (by decide) (by decide) (by simpa using hc)
    rw [String.toList_append, String.toList_append, List.mem_append, List.mem_append] at h
    rcases h with (h | h) | h
    · exact absurd h (by decide)
    · exact absurd (hdigit _ h) (by decide)
    · exact absurd h (by decide)

/-! ## The texts that fit -/

/-- A body whose detail fits: with the prefix of the status there are at most 500 characters, a body
that is not cut is UTF-8, and the characters that are kept have no NUL. -/
structure BodyFits (rt : Runtime) (status : ℕ) (body : List UInt8) : Prop where
  short : (statusPrefix status).length +
    min 500 (runes (body.take rt.config.maxResponseBytes)).length ≤ 500
  valid : (runes (body.take rt.config.maxResponseBytes)).length ≤ 500 →
    encodeRunes (runes (body.take rt.config.maxResponseBytes)) =
      body.take rt.config.maxResponseBytes
  nul : '\x00' ∉ (runes (body.take rt.config.maxResponseBytes)).take 500

/-- Bytes that PostgreSQL stores as a text of at most 500 characters. -/
def FitsColumn (detail : List UInt8) : Prop :=
  ∃ s, textOfBytes? detail = some s ∧ s.length ≤ 500

/-- Bytes fit into the column when they are at most 500 characters in UTF-8 without NUL. -/
theorem fitsColumn_iff {detail : List UInt8} : FitsColumn detail ↔
    encodeRunes (runes detail) = detail ∧ '\x00' ∉ runes detail ∧ (runes detail).length ≤ 500 := by
  unfold FitsColumn textOfBytes?
  constructor
  · rintro ⟨s, hs, hlen⟩
    split_ifs at hs with h
    rw [← Option.some.inj hs, String.length_ofList] at hlen
    exact ⟨h.1, h.2, hlen⟩
  · rintro ⟨hvalid, hnul, hlen⟩
    exact ⟨_, if_pos ⟨hvalid, hnul⟩, by rwa [String.length_ofList]⟩

variable {rt : Runtime} {status : ℕ} {body : List UInt8}

/-- The characters of a detail: the prefix with the status, and the beginning of the body. -/
theorem runes_detail : runes (deliver rt (.response status body)).detail =
    (statusPrefix status).toList ++ (runes (body.take rt.config.maxResponseBytes)).take 500 := by
  rw [detail_eq, bytesOfText, runes_encodeRunes_append, responseDetail, runes_truncate]

/-- The number of characters of a detail. -/
theorem length_runes_detail : (runes (deliver rt (.response status body)).detail).length =
    (statusPrefix status).length + min 500
      (runes (body.take rt.config.maxResponseBytes)).length := by
  rw [runes_detail, List.length_append, List.length_take, String.length_toList]

/-- The detail fits into the column exactly if the body fits. -/
theorem fitsColumn_detail :
    FitsColumn (deliver rt (.response status body)).detail ↔ BodyFits rt status body := by
  have hnul : '\x00' ∉ runes (deliver rt (.response status body)).detail ↔
      '\x00' ∉ (runes (body.take rt.config.maxResponseBytes)).take 500 := by
    rw [runes_detail, List.mem_append, not_or]
    exact ⟨And.right, fun h => ⟨nul_notMem_statusPrefix status, h⟩⟩
  -- Only the end of the detail, which is the body, can be other than UTF-8.
  have hvalid : encodeRunes (runes (deliver rt (.response status body)).detail) =
      (deliver rt (.response status body)).detail ↔
      ((runes (body.take rt.config.maxResponseBytes)).length ≤ 500 →
        encodeRunes (runes (body.take rt.config.maxResponseBytes)) =
          body.take rt.config.maxResponseBytes) := by
    rw [runes_detail, encodeRunes_append, detail_eq, bytesOfText, List.append_cancel_left_eq,
      responseDetail, truncate]
    split_ifs with hlen
    · rw [List.take_of_length_le hlen]
      exact ⟨fun h _ => h, fun h => h hlen⟩
    · exact ⟨fun _ h => absurd h hlen, fun _ => rfl⟩
  rw [fitsColumn_iff, hvalid, hnul, length_runes_detail]
  exact ⟨fun ⟨hv, hn, hs⟩ => ⟨hs, hv, hn⟩, fun ⟨hs, hv, hn⟩ => ⟨hv, hn, hs⟩⟩

/-! ## The reports -/

/-- A statement of a report succeeds under the lease, or for the current event, and sets the status;
in the outbox it also ends the lease. -/
def Records : TxOp Slot Query Env → Prop
  | .auto (.updateWebhookOutbox p) =>
    ∀ ctx c o, ctx.view.outbox.get? p.id = some o → o.leaseToken.isSome = true →
      o.leaseToken = p.leaseToken →
      ∃ e o', Query.exec ctx (.updateWebhookOutbox p) c = some (.ok e) ∧ e.ans = 1 ∧
        (postgres.applyAll ctx.view e.writes).outbox.get? p.id = some o' ∧
        o'.leaseToken = none ∧ o'.leaseExpiresAt = none ∧
        o'.status ∈ [WebhookStatus.success, .failed, .deadLetter]
  | .auto (.updateRedemptionWebhookStatus p) =>
    ∀ ctx c r, ctx.view.redemptions.get? p.id = some r → r.eventId = some p.eventId →
      ∃ e r', Query.exec ctx (.updateRedemptionWebhookStatus p) c = some (.ok e) ∧ e.ans = 1 ∧
        (postgres.applyAll ctx.view e.writes).redemptions.get? p.id = some r' ∧
        r'.webhookStatus = p.webhookStatus
  | _ => True

/-- The detail of an answer has at most 500 characters, and a worker that reports it for an event
that it has leased records the attempt. -/
structure DeliveryRecorded (rt : Runtime) (status : ℕ) (body : List UInt8) : Prop where
  short : (runes (deliver rt (.response status body)).detail).length ≤ 500
  recorded : ∀ event : WebhookOutbox, event.leaseToken.isSome = true →
    (markDelivered rt event (deliver rt (.response status body))).Follows (fun _ => Records)
      (fun _ _ => True) []

/-- The statement for the redemption sets the status when the detail fits. -/
theorem records_redemption {p : UpdateRedemptionWebhookStatusParams}
    (h : FitsColumn p.webhookResponse) : Records (.auto (.updateRedemptionWebhookStatus p)) := by
  obtain ⟨s, hs, hlen⟩ := h
  intro ctx c r hr hevent
  have hexec : Query.exec ctx (.updateRedemptionWebhookStatus p) c =
      some (.ok ⟨1, [.updateRedemptionWebhookStatus p.id ⟨p.webhookStatus, s⟩],
        [.redemption p.id], ctx.seq⟩) := by
    simp only [Query.exec, hs, hr, hevent, hlen, if_true]
  have hrow : (ctx.view.redemptions.modify p.id
      (Redemption.updateWebhookStatus ⟨p.webhookStatus, s⟩)
      (Redemption.key_updateWebhookStatus _)).get? p.id =
        some (r.updateWebhookStatus ⟨p.webhookStatus, s⟩) := by
    rw [Table.get?_modify_self, hr]
    rfl
  exact ⟨_, _, hexec, rfl, hrow, rfl⟩

/-- The statement for the outbox sets the status and ends the lease when the detail fits. -/
theorem records_outbox {p : UpdateWebhookOutboxParams} (h : FitsColumn p.lastResponse)
    (hstatus : p.status ∈ [WebhookStatus.success, .failed, .deadLetter]) :
    Records (.auto (.updateWebhookOutbox p)) := by
  obtain ⟨s, hs, hlen⟩ := h
  intro ctx c o ho hsome htoken
  have hexec : Query.exec ctx (.updateWebhookOutbox p) c =
      some (.ok ⟨1, [.updateWebhookOutbox p.id ⟨p.status, s, p.scheduledAt⟩], [.outbox p.id],
        ctx.seq⟩) := by
    simp only [Query.exec, hs, ho]
    rw [if_pos ⟨hsome, htoken⟩, if_pos hlen]
  have hrow : (ctx.view.outbox.modify p.id (WebhookOutbox.update ⟨p.status, s, p.scheduledAt⟩)
      (WebhookOutbox.key_update _)).get? p.id =
        some (o.update ⟨p.status, s, p.scheduledAt⟩) := by
    rw [Table.get?_modify_self, ho]
    rfl
  exact ⟨_, _, hexec, rfl, hrow, rfl, rfl, hstatus⟩

/-- A report whose detail fits is recorded. -/
theorem reportEvent_records {event : WebhookOutbox} {p : UpdateWebhookOutboxParams}
    {status : WebhookStatus} {trace : Prog.Trace (TxOp.Ans Query.Ans Env.Ans)}
    (h : FitsColumn p.lastResponse)
    (hstatus : p.status ∈ [WebhookStatus.success, .failed, .deadLetter]) :
    (reportEvent event p status).Follows (fun _ => Records) (fun _ _ => True) trace := by
  unfold reportEvent
  rw [Go.run_auto]
  refine ⟨records_outbox h hstatus, fun x => ?_⟩
  cases x with
  | error f => trivial
  | ok affected =>
    dsimp only
    split_ifs
    · trivial
    · unfold reportRedemption
      rw [Go.run_auto]
      refine ⟨records_redemption h, fun y => ?_⟩
      cases y <;> trivial

/-- The detail of a report that is recorded under its lease fits. -/
theorem fitsColumn_of_records {p : UpdateWebhookOutboxParams} (htoken : p.leaseToken.isSome = true)
    (h : Records (.auto (.updateWebhookOutbox p))) : FitsColumn p.lastResponse := by
  -- The statement is executed on a table that has only the leased row.
  let o : WebhookOutbox := ⟨p.id, "", 0, .pending, 0, p.leaseToken, none, 1, ""⟩
  let ctx : Ctx Tables Seqs Lock :=
    ⟨0, ⟨0, 0, 0, 0, 0⟩, { Tables.empty with outbox := Table.insert ∅ o }, fun _ => false⟩
  have ho : ctx.view.outbox.get? (key o) = some o := Table.get?_insert_self (t := ∅) rfl
  obtain ⟨e, o', hexec, hans, -⟩ := h ctx ⟨0, "", .unsent⟩ o ho htoken rfl
  rcases exec_updateWebhookOutbox hexec with rfl | ⟨o'', s, -, -, -, hs, hlen, -⟩
  · cases hans
  · exact ⟨s, hs, hlen⟩

/-- The first statement of a report is the one for the outbox. -/
theorem records_of_reportEvent {event : WebhookOutbox} {p : UpdateWebhookOutboxParams}
    {status : WebhookStatus} {trace : Prog.Trace (TxOp.Ans Query.Ans Env.Ans)}
    (h : (reportEvent event p status).Follows (fun _ => Records) (fun _ _ => True) trace) :
    Records (.auto (.updateWebhookOutbox p)) := by
  unfold reportEvent at h
  rw [Go.run_auto] at h
  exact h.1

/-- The status that `markFailed` sets is one of the two for failures. -/
theorem failedStatus_mem (rt : Runtime) (event : WebhookOutbox) (retry : Bool) :
    failedStatus rt event retry ∈ [WebhookStatus.success, .failed, .deadLetter] := by
  unfold failedStatus
  split_ifs <;> decide

/-- The report on a delivery is recorded exactly if its detail fits. -/
theorem markDelivered_records (rt : Runtime) {event : WebhookOutbox} (r : Delivered)
    (htoken : event.leaseToken.isSome = true) :
    (markDelivered rt event r).Follows (fun _ => Records) (fun _ _ => True) [] ↔
      FitsColumn r.detail := by
  unfold markDelivered
  split_ifs
  · exact ⟨fun h => fitsColumn_of_records htoken (records_of_reportEvent h), fun h =>
      reportEvent_records h (by simp)⟩
  · unfold markFailed
    rw [ask_bind]
    refine ⟨fun h => fitsColumn_of_records htoken (records_of_reportEvent (h.2 (0 : Time))),
      fun h => ⟨trivial, fun now => reportEvent_records h (failedStatus_mem rt event true)⟩⟩

/-- An answer's detail has at most 500 characters and the attempt is recorded exactly if the body
fits behind the prefix of the status. -/
theorem delivery_recorded_iff (rt : Runtime) (status : ℕ) (body : List UInt8) :
    DeliveryRecorded rt status body ↔ BodyFits rt status body := by
  rw [← fitsColumn_detail]
  constructor
  · intro h
    have hleased := h.recorded ⟨0, "", 0, .pending, 0, some "", none, 1, ""⟩ rfl
    exact (markDelivered_records rt _ rfl).mp hleased
  · intro h
    exact ⟨(fitsColumn_iff.mp h).2.2, fun event htoken =>
      (markDelivered_records rt _ htoken).mpr h⟩

/-- The detail of an error page of 500 characters is too long. -/
theorem delivery_error_page_lost : ¬ ∀ (rt : Runtime) (status : ℕ) (body : List UInt8),
    DeliveryRecorded rt status body := by
  intro h
  have hshort := (h .simple 500 (encodeRunes (List.replicate 500 'a'))).short
  have htake : (encodeRunes (List.replicate 500 'a')).take Runtime.simple.config.maxResponseBytes =
      encodeRunes (List.replicate 500 'a') := by
    refine List.take_of_length_le ?_
    have hlen : (encodeRunes (List.replicate 500 'a')).length = 500 := by
      have hsize : 'a'.utf8Size = 1 := rfl
      simp only [encodeRunes, List.length_flatMap, String.length_utf8EncodeChar,
        List.map_replicate, hsize, List.sum_replicate]
      rfl
    rw [hlen]
    decide
  rw [length_runes_detail, htake, runes_encodeRunes, List.length_replicate] at hshort
  exact absurd hshort (by decide)

end CdkSystem
