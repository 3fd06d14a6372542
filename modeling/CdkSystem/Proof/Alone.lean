import CdkSystem.Proof.Running

/-!
# Calls that run alone

When one call runs alone, its commits are all there are, so what it has committed is the difference
between the tables at the start and those in the end. For `Redeem` this is `RedeemEffect`: nothing
for an error, the row of the failure for a business failure, and the changes of a success for a
success (`Start.redeem_effect`).

The relations `Refuses` and `Succeeds` name the new rows and say what the tables are afterwards as a
whole, so that whatever they do not mention is unchanged.
-/

namespace CdkSystem

open RowLock Relational

/-- The keys after the response of a new key was stored, if there is a key. -/
def storedKey (t : Table IdempotencyKey) (key : String) (requestHash : List UInt8) (body : Json) :
    Table IdempotencyKey :=
  if key = "" then t else t.insert ⟨key, requestHash, some body⟩

/-- The changes of a business failure: one row with the result of the response, without a webhook,
and the response in the row of the key. -/
structure Refuses (rt : Runtime) (req : RedeemRequest) (T T' : Tables) (resp : RedeemResponse)
    (row : Redemption) : Prop where
  new : T.redemptions.get? row.id = none
  result : resp.result = .known row.result
  webhook : row.webhookStatus = .none
  event : row.eventId = none
  key : row.idempotencyKey = stringPtr req.idempotencyKey
  tables : T' = { T with
    redemptions := T.redemptions.insert row
    keys := storedKey T.keys req.idempotencyKey (hashRequest rt req) resp.marshal }

/-- The changes of a success: one row with the payload of the batch, one use of its code, an outbox
row for the event if the batch has a webhook, the credential marked used if the batch assigns one,
and the response in the row of the key. -/
structure Succeeds (rt : Runtime) (req : RedeemRequest) (T T' : Tables) (resp : RedeemResponse)
    (g : Grant) : Prop where
  code : T.codes.get? g.code.id = some g.code
  text : g.code.code = normalizeCode req.code
  batch : T.batches.get? g.code.batchId = some g.batch
  new : T.redemptions.get? g.redemption.id = none
  result : g.redemption.result = .success
  payload : g.redemption.payloadSnapshot = g.batch.payloadJson
  codeId : g.redemption.codeId = some g.code.id
  event : g.redemption.eventId = stringPtr resp.eventID
  webhook : resp.webhookPending = true ↔ g.batch.webhookUrl ≠ ""
  outboxNew : g.batch.webhookUrl ≠ "" → T.outbox.get? g.outbox.id = none
  outbox : g.batch.webhookUrl ≠ "" →
    g.outbox.eventId = resp.eventID ∧ g.outbox.redemptionId = g.redemption.id
  assigns : g.credential.isSome = g.batch.assignCredential
  credential : ∀ x, g.credential = some x → T.credentials.get? x.id = some x ∧
    x.available g.redemption.createdAt g.batch.credentialPlanType = true
  response : ∃ redeemedAt, resp = successResponse rt req (normalizeCode req.code) g.batch
    g.credential
    redeemedAt g.event
  tables : T' = { T with
    codes := T.codes.modify g.code.id Code.incrementUseCount Code.key_incrementUseCount
    redemptions := T.redemptions.insert g.redemption
    outbox := if g.batch.webhookUrl = "" then T.outbox else T.outbox.insert g.outbox
    credentials := match g.credential with
      | none => T.credentials
      | some x => T.credentials.modify x.id (Credential.markUsed g.redemption.id)
          (Credential.key_markUsed g.redemption.id)
    keys := storedKey T.keys req.idempotencyKey (hashRequest rt req) resp.marshal }

/-- What `Redeem` changes, by what it returns; the request has its user trimmed. -/
inductive RedeemEffect (rt : Runtime) (req : RedeemRequest) (T T' : Tables) :
    Except GoError RedeemResponse → Prop
  /-- An error changes nothing. -/
  | error {err} (h : T' = T) : RedeemEffect rt req T T' (.error err)
  /-- Nor does an input that is not accepted. -/
  | invalid {resp} (hinput : checkInput req (normalizeCode req.code) = some resp)
      (ok : resp.ok = false) (h : T' = T) : RedeemEffect rt req T T' (.ok resp)
  /-- A business failure. -/
  | refused {resp row} (hinput : checkInput req (normalizeCode req.code) = none)
      (ok : resp.ok = false) (h : Refuses rt req T T' resp row) :
      RedeemEffect rt req T T' (.ok resp)
  /-- A success. -/
  | succeeded {resp g} (hinput : checkInput req (normalizeCode req.code) = none)
      (ok : resp.ok = true) (h : Succeeds rt req T T' resp g) : RedeemEffect rt req T T' (.ok resp)

/-- An input that is not accepted is no success. -/
theorem checkInput_eq_some {req : RedeemRequest} {code : String} {resp : RedeemResponse}
    (h : checkInput req code = some resp) : resp.ok = false ∧
    resp.result = .known .invalidInput := by
  unfold checkInput at h
  split_ifs at h
  all_goals
    cases h
    exact ⟨rfl, rfl⟩

/-- The response of a new key is stored in a new row. -/
theorem keyed_eq_storedKey {t : Table IdempotencyKey} {key : String} {hash : List UInt8}
    {body : Json} (h : key ≠ "" → t.get? key = none) :
    keyed t key hash body = storedKey t key hash body := by
  unfold keyed storedKey
  split_ifs with hk hsome
  · rfl
  · rw [h hk] at hsome
    cases hsome
  · have hnew : t.get? (Relational.key (⟨key, hash, none⟩ : IdempotencyKey)) = none := h hk
    exact Table.modify_insert (f := IdempotencyKey.setResponse body)
      (IdempotencyKey.key_setResponse body) hnew

/-- A success that is in order, with the batch that the code has, makes the changes of a success. -/
theorem Succeeds.of_inOrder {rt : Runtime} {clock time redeemedAt : Time} {past : Tables → Prop}
    {req : RedeemRequest} {T T' : Tables} {resp : RedeemResponse} {g : Grant}
    (h : g.InOrder rt clock time past T req)
    (hbatch : T.batches.get? g.code.batchId = some g.batch)
    (hresp : resp = successResponse rt req (normalizeCode req.code) g.batch g.credential redeemedAt
      g.event)
    (hT' : T' = { T with
      codes := T.codes.modify g.code.id Code.incrementUseCount Code.key_incrementUseCount
      credentials := g.credentialsAfter T.credentials
      keys := storedKey T.keys req.idempotencyKey (hashRequest rt req) resp.marshal
      redemptions := T.redemptions.insert g.redemption
      outbox := g.outboxAfter T.outbox }) : Succeeds rt req T T' resp g := by
  have hrow := h.row
  have hassigns := h.assigns
  unfold Grant.Assigns at hassigns
  refine ⟨h.found.row, h.found.text, hbatch, h.new, by rw [hrow]; rfl, by rw [hrow]; rfl,
    by rw [hrow]; rfl, by rw [hrow, hresp]; rfl, by rw [hresp]; simp [successResponse],
    h.announces.outboxNew, fun hurl => ?_, ?_, fun x hx => ?_, ⟨redeemedAt, hresp⟩, hT'⟩
  · -- What is left are the event's row, the assigned credential and its state before.
    rw [h.announces.row hurl, hresp]
    exact ⟨rfl, rfl⟩
  · cases hx : g.credential with
    | none =>
      rw [hx] at hassigns
      rw [hassigns]
      rfl
    | some x =>
      rw [hx] at hassigns
      rw [hassigns.1]
      rfl
  · rw [hx] at hassigns
    exact hassigns.2

section Histories

variable {ι : Type} [DecidableEq ι] {start : Start ι} {T : Tables} {e : Commit ι Tables}

/-- Without a commit, the tables are those of the start. -/
theorem History.of_nil (h : History start [] T) : T = start.tables := by
  generalize hlog : ([] : List (Commit ι Tables)) = log at h
  cases h with
  | start => rfl
  | commit h time he => simp at hlog

/-- One commit leads from the tables of the start to the current ones. -/
theorem History.of_singleton (h : History start [e] T) : e.before = start.tables ∧ T = e.after := by
  generalize hlog : [e] = log at h
  cases h with
  | start => simp at hlog
  | @commit log' e' h time he =>
    obtain ⟨rfl, rfl⟩ : log' = [] ∧ e = e' := by
      have := List.append_inj' (show [] ++ [e] = log' ++ [e'] from hlog) rfl
      exact ⟨this.1.symm, by simpa using this.2⟩
    exact ⟨h.of_nil, rfl⟩

end Histories

/-- All commits are those of the one call. -/
theorem ownLog_unit (d : Database Unit) : d.ownLog () = d.log := by
  unfold Db.ownLog
  simp

variable {start : Start Unit} {as : List (Action Unit Choice)} {s : State Unit}

/-- Without a commit of the call, the tables are those of the start. -/
theorem Start.tables_of_nil (h : start.run as = some s) (hlog : s.db.ownLog () = []) :
    s.db.tables = start.tables := by
  have hh := Start.history h
  rw [ownLog_unit] at hlog
  rw [hlog] at hh
  exact hh.of_nil

/-- With one commit of the call, it leads from the tables of the start to the current ones. -/
theorem Start.one_commit {e : Commit Unit Tables} (h : start.run as = some s)
    (hlog : s.db.ownLog () = start.state.db.ownLog () ++ [e]) :
    s.db.log = [e] ∧ e.before = start.tables ∧ s.db.tables = e.after := by
  have hh := Start.history h
  rw [ownLog_unit, ownLog_unit] at hlog
  have hstart : start.state.db.log = [] := rfl
  rw [hstart, List.nil_append] at hlog
  rw [hlog] at hh
  exact ⟨hlog, hh.of_singleton⟩

/-- A redemption that runs alone changes the tables as its result says, if its key is new. -/
theorem Start.redeem_effect {req : RedeemRequest} {r : Result}
    (hcall : start.calls () = .redeem req)
    (hkey : req.idempotencyKey ≠ "" → start.tables.keys.get? req.idempotencyKey = none)
    (h : start.run as = some s) (hret : s.progs () = some (.ret r)) :
    ∃ r', r = .redeem r' ∧ RedeemEffect start.rt req.trimmed start.tables s.db.tables r' := by
  obtain ⟨r', rfl, hr⟩ := Start.redeem_returned h hcall hret
  refine ⟨r', rfl, ?_⟩
  cases hr with
  | invalid hinput hq =>
    exact .invalid hinput (checkInput_eq_some hinput).1 (Start.tables_of_nil h hq.log)
  | answered hinput ha hq =>
    have htables := Start.tables_of_nil h hq.log
    rw [htables] at ha
    cases ha with
    -- The key is new in the only tables that there are, so no answer is read from its row.
    | replayed hk hrow | conflict hk hrow | undecodable hk hrow =>
      rw [hkey hk] at hrow
      cases hrow
  | failed hf => exact .error (Start.tables_of_nil h hf.log)
  | @redeemed e resp hinput he hlog hfailed hfull =>
    obtain ⟨hone, hbefore, hafter⟩ := Start.one_commit h hlog
    have hfree : req.trimmed.idempotencyKey ≠ "" →
        e.before.keys.get? req.trimmed.idempotencyKey = none := by
      rw [hbefore]
      exact hkey
    cases he with
    | @refused codeID batchID resp result id createdAt reason known new hcreated free after =>
      have hrefuses : Refuses start.rt req.trimmed start.tables s.db.tables resp
          (refusedRow start.rt req.trimmed codeID batchID resp result id createdAt) := by
        refine ⟨by rwa [← hbefore], known, rfl, rfl, rfl, ?_⟩
        rw [hafter, after, tables_refused, keyed_eq_storedKey hfree, hbefore]
      exact .refused hinput reason.result_ne.2 hrefuses
    | @succeeded g redeemedAt resp inOrder response free after =>
      rw [tables_succeeded] at after
      -- The batch was read from the tables before the commit or after it, which have the same
      -- batches.
      have hbatch : start.tables.batches.get? g.code.batchId = some g.batch := by
        obtain ⟨T', hT', hb⟩ := inOrder.found.batch
        rcases hT' with rfl | ⟨e', he', rfl⟩
        · rwa [hafter, after, hbefore] at hb
        · obtain rfl : e' = e := by
            rw [hone] at he'
            simpa using he'
          rwa [hbefore] at hb
      refine .succeeded hinput (by rw [response]; rfl) (g := g)
        (Succeeds.of_inOrder (hbefore ▸ inOrder) hbatch response ?_)
      rw [hafter, after, keyed_eq_storedKey hfree, hbefore]

end CdkSystem
