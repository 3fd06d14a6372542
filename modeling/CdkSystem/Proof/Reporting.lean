import CdkSystem.Lib.Traces
import CdkSystem.Proof.Running
import CdkSystem.Proof.Webhooks

/-!
# When workers report

A worker reports a success in the outbox only after the target has accepted the event, and it comes
to the report in the redemption only from a report in the outbox that took effect (`WorkerRule`,
`processBatch_follows`). So in a run, a step after which a worker is about to report in a redemption
is one by another caller, or the worker's own report in the outbox (`Start.reporting_of_step`).
-/

namespace CdkSystem

open RowLock Relational

/-- The trace of a call. -/
abbrev CallTrace := OpTrace Slot Query Env Query.Ans Env.Ans

/-- A target has accepted an event: it has answered a request for the event with a status from 200
to 299. -/
def Accepted (trace : CallTrace) (event : String) : Prop :=
  ∃ (url secret : String) (body : EventBody) (status : ℕ) (bytes : List UInt8),
    ⟨.env (.deliver url secret body), Delivery.response status bytes⟩ ∈ trace ∧
      body.eventId = event ∧ 200 ≤ status ∧ status < 300

/-- A worker has leased the event on which it reports in the outbox, under the lease's token, and
when it reports a success, then the target has accepted the event. -/
structure MayUpdate (trace : CallTrace) (event : WebhookOutbox) (q : UpdateWebhookOutboxParams) :
    Prop where
  leased : ∃ token, ⟨.auto (.leaseWebhookOutboxEvent token), Except.ok (some event)⟩ ∈ trace
  id : q.id = event.id
  token : q.leaseToken = event.leaseToken
  finishes : q.status ∈ [WebhookStatus.success, .failed, .deadLetter]
  accepted : q.status = .success → Accepted trace event.eventId

/-- The report in a redemption that follows a report in the outbox. -/
def UpdateWebhookOutboxParams.redemptionReport (q : UpdateWebhookOutboxParams)
    (event : WebhookOutbox) : UpdateRedemptionWebhookStatusParams :=
  { webhookStatus := redemptionStatus q.status
    webhookResponse := q.lastResponse
    id := event.redemptionId
    eventId := event.eventId }

/-- What a worker asks for after a trace. -/
def WorkerRule : CallTrace → TxOp Slot Query Env → Prop
  | _, .env _ => True
  | _, .auto (.leaseWebhookOutboxEvent _) | _, .auto (.getRedemptionByID _)
  | _, .auto (.getBatchByID _) => True
  | trace, .auto (.updateWebhookOutbox q) => ∃ event, MayUpdate trace event q
  | trace, .auto (.updateRedemptionWebhookStatus p) =>
    ∃ q rest event, trace = ⟨.auto (.updateWebhookOutbox q), Except.ok 1⟩ :: rest ∧
      MayUpdate rest event q ∧ p = q.redemptionReport event
  | _, _ => False

section Follows

variable {trace : CallTrace} {event : WebhookOutbox} {rt : Runtime}

/-- A program of a worker keeps to the rule after a trace. -/
abbrev Keeps {α : Type} (trace : CallTrace) (p : M α) : Prop :=
  Prog.Follows WorkerRule (fun _ _ => True) trace p

/-- A question to the outside world keeps to the rule, if what follows each answer does. -/
theorem follows_ask {α : Type} {post : CallTrace → α → Prop} {e : Env} {K : e.Ans → M α}
    (h : ∀ a, Prog.Follows WorkerRule post (⟨.env e, a⟩ :: trace) (K a)) :
    Prog.Follows WorkerRule post trace (ask e >>= K) :=
  ⟨trivial, h⟩

/-- A statement keeps to the rule, if it may be asked for and what follows each answer does. -/
theorem follows_auto {α : Type} {post : CallTrace → α → Prop} {err : GoError} {q : Query}
    {K : Except GoError q.Ans → M α} (hrule : WorkerRule trace (.auto q))
    (herror : ∀ f, Prog.Follows WorkerRule post (⟨.auto q, Except.error f⟩ :: trace)
      (K (.error err)))
    (hok : ∀ a, Prog.Follows WorkerRule post (⟨.auto q, Except.ok a⟩ :: trace) (K (.ok a))) :
    Prog.Follows WorkerRule post trace ((Go.auto err q).run >>= K) := by
  rw [Go.run_auto]
  refine ⟨hrule, fun answer => ?_⟩
  cases answer with
  | error f => exact herror f
  | ok a => exact hok a

/-- A report in the outbox keeps to the rule, if it may be made. -/
theorem reportEvent_follows {q : UpdateWebhookOutboxParams} (h : MayUpdate trace event q) :
    Keeps trace (reportEvent event q (redemptionStatus q.status)) := by
  unfold reportEvent
  refine follows_auto ⟨event, h⟩ (fun _ => trivial) fun affected => ?_
  dsimp only
  split_ifs with hone
  · trivial
  · have hone' : affected = 1 := not_not.mp hone
    subst hone'
    exact follows_auto ⟨q, trace, event, rfl, h, rfl⟩ (fun _ => trivial) fun _ => trivial

/-- An event has been leased by the worker. -/
def HasLease (trace : CallTrace) (event : WebhookOutbox) : Prop :=
  ∃ token, ⟨.auto (.leaseWebhookOutboxEvent token), Except.ok (some event)⟩ ∈ trace

/-- What has been leased stays leased. -/
theorem HasLease.cons (h : HasLease trace event) (x : Σ o, TxOp.Ans Query.Ans Env.Ans o) :
    HasLease (x :: trace) event := by
  obtain ⟨token, hmem⟩ := h
  exact ⟨token, List.mem_cons_of_mem x hmem⟩

/-- `markSuccess` keeps to the rule after the target has accepted the event. -/
theorem markSuccess_follows {detail : List UInt8} (h : HasLease trace event)
    (haccepted : Accepted trace event.eventId) : Keeps trace (markSuccess event detail) :=
  reportEvent_follows (q := ⟨.success, detail, none, event.id, event.leaseToken⟩)
    ⟨h, rfl, rfl, by simp, fun _ => haccepted⟩

/-- `markFailed` keeps to the rule. -/
theorem markFailed_follows {detail : List UInt8} {retry : Bool} (h : HasLease trace event) :
    Keeps trace (markFailed rt event detail retry) := by
  unfold markFailed
  refine follows_ask fun now => ?_
  refine reportEvent_follows (q := ⟨failedStatus rt event retry, detail, some _, event.id,
    event.leaseToken⟩) ⟨h.cons _, rfl, rfl, ?_, ?_⟩
  · simp only [failedStatus]
    split_ifs <;> simp
  · simp only [failedStatus]
    split_ifs <;> simp

/-- The report on what `Deliver` returned keeps to the rule after the request. -/
theorem markDelivered_follows {url secret : String} {body : EventBody} {delivery : Delivery}
    (h : HasLease trace event) (hbody : body.eventId = event.eventId) :
    Keeps (⟨.env (.deliver url secret body), delivery⟩ :: trace)
      (markDelivered rt event (deliver rt delivery)) := by
  unfold markDelivered
  split_ifs with hok
  · refine markSuccess_follows (h.cons _) ?_
    -- Only an answer with such a status is a success.
    cases delivery with
    | rejected reason => simp [deliver] at hok
    | unsent => simp [deliver] at hok
    | failed reason => simp [deliver] at hok
    | response status bytes =>
      simp only [deliver] at hok
      split_ifs at hok with hstatus
      · exact ⟨url, secret, body, status, bytes, List.mem_cons_self, hbody, hstatus.1, hstatus.2⟩
      · simp at hok
  · exact markFailed_follows (h.cons _)

/-- `deliverEvent` keeps to the rule. -/
theorem deliverEvent_follows (h : HasLease trace event) :
    Keeps trace (deliverEvent rt event) := by
  unfold deliverEvent
  refine follows_auto trivial (fun _ => markFailed_follows (h.cons _)) fun answer => ?_
  cases answer with
  | none => exact markFailed_follows (h.cons _)
  | some redemption =>
    dsimp only
    cases redemption.batchId with
    | none => exact markFailed_follows (h.cons _)
    | some batchId =>
      refine follows_auto trivial (fun _ => markFailed_follows ((h.cons _).cons _)) fun answer => ?_
      cases answer with
      | none => exact markFailed_follows ((h.cons _).cons _)
      | some b => exact follows_ask fun delivery => markDelivered_follows ((h.cons _).cons _) rfl

/-- `leaseEvent` keeps to the rule, and what it returns has been leased. -/
theorem leaseEvent_follows :
    Prog.Follows WorkerRule (fun trace' r => ∀ event, r = some event → HasLease trace' event) trace
      leaseEvent := by
  unfold leaseEvent
  refine follows_ask fun token => follows_auto trivial (fun _ => ?_) fun answer => ?_
  · rintro event ⟨⟩
  · rintro event rfl
    exact ⟨token, List.mem_cons_self⟩

/-- `processBatch` keeps to the rule, whatever the trace before it. -/
theorem processBatch_follows (n : ℕ) (trace : CallTrace) : Keeps trace (processBatch rt n) := by
  induction n generalizing trace with
  | zero => trivial
  | succ n ih =>
    rw [processBatch]
    refine Prog.Follows.bind (leaseEvent_follows.mono fun trace' r hr => ?_)
    cases r with
    | none => trivial
    | some event =>
      exact Prog.Follows.bind ((deliverEvent_follows (hr event rfl)).mono fun trace'' _ _ =>
        ih trace'')

/-- A worker keeps to the rule. -/
theorem worker_follows (turns : ℕ) : Keeps [] (callProgram rt (.worker turns)) :=
  Prog.Follows.bind ((processBatch_follows turns []).mono fun _ _ _ => trivial)

end Follows

/-! ## Steps of a run -/

section Steps

variable {ι : Type} [DecidableEq ι] {start : Start ι} {i : ι} {turns : ℕ}
  {as : List (Action ι Choice)} {act : Action ι Choice} {s s' : State ι}

/-- A worker asks for what the rule allows after its trace. -/
theorem Start.worker_rule {traces : Traces ι Slot Query Env Query.Ans Env.Ans}
    (h : Sys.Traced postgres start.state as s traces) (hcall : start.calls i = .worker turns)
    {o : TxOp Slot Query Env} {k : o.Ans Query.Ans Env.Ans → M Result}
    (hp : s.progs i = some (.op o k)) : WorkerRule (traces i) o := by
  have hbegin : ∀ p, start.state.progs i = some p →
      Prog.Follows WorkerRule (fun _ _ => True) [] p := by
    intro p hp
    have hp' : p = callProgram start.rt (.worker turns) := by
      rw [← hcall]
      exact (Option.some.inj hp).symm
    rw [hp']
    exact worker_follows turns
  exact (h.follows hbegin _ hp).1

/-- A worker comes to a report in a redemption only by a report in the outbox that took effect. -/
theorem Start.reporting_of_step (h : start.run as = some s) (hstep : s.step postgres act = some s')
    (hcall : start.calls i = .worker turns) {p : UpdateRedemptionWebhookStatusParams}
    {k : Except Failure ℕ → M Result}
    (hp : s'.progs i = some (.op (.auto (.updateRedemptionWebhookStatus p)) k)) :
    s.progs i = s'.progs i ∨
    ∃ q event k' c d, s.progs i = some (.op (.auto (.updateWebhookOutbox q)) k') ∧
      act = .exec i c ∧
      s.db.perform postgres i (.auto (.updateWebhookOutbox q)) c = some (Except.ok 1, d) ∧
      s' = s.resume i d (some (k' (Except.ok 1))) ∧ p = q.redemptionReport event := by
  obtain ⟨traces, ht⟩ := Sys.exists_traced h
  rcases Sys.step_cases hstep with ⟨j, o, k', a, d, hj, ha, rfl⟩ | ⟨j, p', -, hj, rfl⟩ | ⟨n, -, rfl⟩
  · -- If the worker itself has gone on, its last answer is that of its report in the outbox.
    by_cases hij : i = j
    · subst hij
      have hrule := Start.worker_rule (ht.answer hj ha) hcall hp
      obtain ⟨q, rest, event, htrace, -, rfl⟩ := hrule
      rw [Function.update_self, List.cons.injEq] at htrace
      obtain ⟨he, -⟩ := htrace
      cases he
      cases ha with
      | exec hperform => exact Or.inr ⟨q, event, k', _, d, hj, rfl, hperform, rfl, rfl⟩
      | fail hfail => cases hfail
    · left
      simp only [Sys.resume, Function.update_of_ne hij]
  · -- A worker that dies is not about to do anything.
    by_cases hij : i = j
    · subst hij
      simp [Sys.resume] at hp
    · left
      simp only [Sys.resume, Function.update_of_ne hij]
  · exact Or.inl rfl

/-- A report in the outbox that takes effect names the token of the row's lease. -/
theorem reported_of_perform {d d' : Database ι} {q : UpdateWebhookOutboxParams} {c : Choice}
    (h : d.perform postgres i (.auto (.updateWebhookOutbox q)) c = some (Except.ok 1, d')) :
    ∃ o response, d.tables.outbox.get? q.id = some o ∧ o.leaseToken.isSome = true ∧
      o.leaseToken = q.leaseToken ∧ textOfBytes? q.lastResponse = some response ∧
      response.length ≤ 500 ∧
      d'.tables = d.tables.apply
        (.updateWebhookOutbox q.id ⟨q.status, response, q.scheduledAt⟩) := by
  obtain ⟨e, he, hans, rfl⟩ := Db.perform_auto_ok h
  rcases exec_updateWebhookOutbox (c := c) he with rfl | ⟨o, response, ho, hsome, ht, hr, hlen, rfl⟩
  · cases hans
  · exact ⟨o, response, ho, hsome, ht, hr, hlen, rfl⟩

/-- What an operation of a worker does to the tables. -/
inductive WorkerEffect (d d' : Database ι) : TxOp Slot Query Env → Prop
  /-- Nothing. -/
  | nothing {o} (tables : d'.tables = d.tables) : WorkerEffect d d' o
  /-- A due event is leased. -/
  | leased {token} {o : WebhookOutbox} (row : d.tables.outbox.get? o.id = some o)
      (due : o.due d.clock = true)
      (tables : d'.tables =
        d.tables.apply (.leaseWebhookOutboxEvent o.id token (d.clock + leaseTime))) :
      WorkerEffect d d' (.auto (.leaseWebhookOutboxEvent token))
  /-- A report is made in the outbox, under the row's lease. -/
  | reported {q : UpdateWebhookOutboxParams} {o : WebhookOutbox} {response}
      (row : d.tables.outbox.get? q.id = some o) (leased : o.leaseToken.isSome = true)
      (token : o.leaseToken = q.leaseToken)
      (tables : d'.tables =
        d.tables.apply (.updateWebhookOutbox q.id ⟨q.status, response, q.scheduledAt⟩)) :
      WorkerEffect d d' (.auto (.updateWebhookOutbox q))
  /-- A report is made in a redemption whose current event it is on. -/
  | redemptionReported {p : UpdateRedemptionWebhookStatusParams} {r : Redemption} {response}
      (row : d.tables.redemptions.get? p.id = some r) (event : r.eventId = some p.eventId)
      (tables : d'.tables =
        d.tables.apply (.updateRedemptionWebhookStatus p.id ⟨p.webhookStatus, response⟩)) :
      WorkerEffect d d' (.auto (.updateRedemptionWebhookStatus p))

/-- An operation of a worker has one of these effects. -/
theorem worker_effect {trace : CallTrace} {o : TxOp Slot Query Env} {a : o.Ans Query.Ans Env.Ans}
    {d d' : Database ι} (hrule : WorkerRule trace o) (hop : OpStep postgres i o d a d') :
    WorkerEffect d d' o := by
  cases o with
  -- A worker has no transactions, so it makes only statements of its own.
  | begin | query | commit | rollback => exact hrule.elim
  | env e =>
    cases hop.did with
    | env c he => exact .nothing rfl
  | auto q =>
    cases hop.did with
    | autoFailed => exact .nothing rfl
    | auto c he hl =>
      cases q with
      | leaseWebhookOutboxEvent token =>
        rcases exec_leaseWebhookOutboxEvent he with rfl | ⟨o, ho, hdue, rfl⟩
        · exact .nothing rfl
        · exact .leased ho hdue rfl
      | updateWebhookOutbox q =>
        rcases exec_updateWebhookOutbox (c := c) he with
          rfl | ⟨o, response, ho, hsome, ht, -, -, rfl⟩
        · exact .nothing rfl
        · exact .reported ho hsome ht rfl
      | updateRedemptionWebhookStatus p =>
        rcases exec_updateRedemptionWebhookStatus (c := c) he with
          ⟨rfl, -⟩ | ⟨r, response, hr, hevent, -, -, rfl⟩
        · exact .nothing rfl
        · exact .redemptionReported hr hevent rfl
      | getRedemptionByID id =>
        obtain rfl := exec_getRedemptionByID (c := c) he
        exact .nothing rfl
      | getBatchByID id =>
        obtain rfl := exec_getBatchByID (c := c) he
        exact .nothing rfl
      | _ => exact hrule.elim

/-- What an operation does to the tables: nothing, or it commits a transition of its call. -/
theorem Start.op_effect (h : start.run as = some s) {o : TxOp Slot Query Env}
    {k : o.Ans Query.Ans Env.Ans → M Result} {a : o.Ans Query.Ans Env.Ans} {d : Database ι}
    (hp : s.progs i = some (.op o k)) (hop : OpStep postgres i o s.db a d) :
    (d.tables = s.db.tables ∧ d.log = s.db.log) ∨
    ∃ e : Commit ι Tables, e.caller = i ∧ e.before = s.db.tables ∧ e.after = d.tables ∧
      d.log = s.db.log ++ [e] ∧ Transition start s.db.log e (start.calls i) := by
  have hat := Start.asserts h hp
  cases hop.did with
  | @commit t tx htx hd =>
    have hc : start.Commits i t tx s.db := hat tx htx hd
    exact Or.inr ⟨_, rfl, rfl, rfl, rfl, hc.transition⟩
  | auto c he hl => exact Or.inr ⟨_, rfl, rfl, rfl, rfl, hat.1 c _ he⟩
  | begin | beginFailed | query | queryFailed | queryClosed | commitFailed | commitClosed | rollback
  | rollbackClosed | autoFailed | env => exact Or.inl ⟨rfl, rfl⟩

/-- What a step does to the tables: nothing, or it commits a transition of a call. -/
theorem Start.step_effect (h : start.run as = some s) (hstep : s.step postgres act = some s') :
    (s'.db.tables = s.db.tables ∧ s'.db.log = s.db.log) ∨
    ∃ e : Commit ι Tables, e.before = s.db.tables ∧ e.after = s'.db.tables ∧
      s'.db.log = s.db.log ++ [e] ∧ Transition start s.db.log e (start.calls e.caller) := by
  rcases Sys.step_cases hstep with ⟨i, o, k, a, d, hp, ha, rfl⟩ | ⟨i, p, -, hp, rfl⟩ | ⟨n, -, rfl⟩
  · rcases Start.op_effect h hp ha.opStep with hsame | ⟨e, rfl, hbefore, hafter, hlog, he⟩
    · exact Or.inl hsame
    · exact Or.inr ⟨e, hbefore, hafter, hlog, he⟩
  · exact Or.inl ⟨rfl, rfl⟩
  · exact Or.inl ⟨rfl, rfl⟩

/-- A run that goes on is a run from the start. -/
theorem Start.run_append {bs : List (Action ι Choice)} (h : start.run as = some s)
    (hbs : s.run postgres bs = some s') : start.run (as ++ bs) = some s' := by
  have hrun : start.state.run postgres as = some s := h
  rw [Start.run, Sys.run_append, hrun]
  exact hbs

end Steps

/-! ## A delivery -/

/-- A text of 16 bytes in hexadecimal digits. -/
def hexText (c : Char) : String := String.ofList (List.replicate 32 c)

/-- A call that creates a batch with a webhook and one code, one that redeems the code, and a
worker. -/
def deliverOne : Start ℕ :=
  Start.of
    (fun
      | 0 => .createBatch ⟨"b", "", "{}", "", 8, 1, 2, 1, none, "https://x", "s", false, ""⟩
          (List.replicate 8 0)
      | 1 => .redeem ⟨"u", "AAAA-AAAA", "", ""⟩
      | _ => .worker 1)
    .empty ⟨0, 0, 0, 0, 0⟩ Tables.empty_below Tables.checkIntegrity_empty

/-- One call after the other, and the target answers with status 200. -/
def deliverOneRun : List (Action ℕ Choice) :=
  List.replicate 5 (.exec 0 ⟨0, "", .unsent⟩) ++
    List.replicate 11 (.exec 1 ⟨0, hexText '1', .unsent⟩) ++
    List.replicate 7 (.exec 2 ⟨0, hexText '2', .response 200 []⟩)

/-- The run is one. -/
theorem deliverOne_runs : ∃ s, deliverOne.run deliverOneRun = some s :=
  Option.isSome_iff_exists.mp
    (show (deliverOne.run deliverOneRun).isSome = true by decide +kernel)

/-- At its end, the redemption shows a success. -/
example : (deliverOne.run deliverOneRun).map (fun s =>
    s.db.tables.redemptions.rows.map Redemption.webhookStatus) = some [.success] := by
  decide +kernel

end CdkSystem
