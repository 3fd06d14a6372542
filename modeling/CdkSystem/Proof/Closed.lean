import CdkSystem.Lib.Closing
import CdkSystem.Proof.Running

/-!
# No redemption leaves a transaction open

Every function that `Redeem` and `BatchRedeem` are made of closes the transactions that it opens, so
after a call has returned its transactions are closed (`Start.closed`), and when all calls have
returned or died no lock is owned (`Start.owner_none`).

The proof follows the functions from the inside to the outside, with one lemma for each and the rule
`Closes.bind` between them. `deferRollback` is what makes every early return safe: the transaction
is rolled back on each way out of the function, and a rollback after a commit does nothing.
-/

namespace CdkSystem

open RowLock Relational

variable {α β : Type}

namespace Go

/-- A function leaves no transaction open that was not open before. -/
def Closes (x : Go α) : Prop := RowLock.Closes x.run

/-- One function after another: each of them closes what it has opened. -/
theorem Closes.bind {x : Go β} {f : β → Go α} (h : x.Closes) (hf : ∀ a, (f a).Closes) :
    (x >>= f).Closes := by
  unfold Closes
  rw [ExceptT.run_bind]
  refine RowLock.Closes.bind h fun r => ?_
  cases r with
  | ok a => exact hf a
  | error e => exact closes_ret _

/-- A returned result opens nothing, so there is nothing to close. -/
theorem closes_pure (a : α) : (pure a : Go α).Closes := closes_ret _

/-- A returned error opens nothing, so there is nothing to close. -/
theorem closes_throw (e : GoError) : (throw e : Go α).Closes := closes_ret _

/-- A query opens no transaction, so there is nothing to close. -/
theorem closes_query (err : GoError) (t : Slot) (q : Query) : (Go.query err t q).Closes := by
  refine closes_op rfl fun r => ?_
  cases r <;> exact closes_ret _

/-- A commit opens no transaction, so there is nothing to close. -/
theorem closes_commit (err : GoError) (t : Slot) : (Go.commit err t).Closes := by
  refine closes_op rfl fun r => ?_
  cases r <;> exact closes_ret _

/-- A question to the outside world opens no transaction. -/
theorem closes_env (e : Env) : (Go.env e).Closes := closes_op rfl fun _ => closes_ret _

/-- A transaction that is rolled back at the end. -/
theorem closes_deferRollback {err : GoError} {t : Slot} {body : Go α} (h : body.Closes) :
    (Go.begin err t >>= fun _ => Go.deferRollback t body).Closes := by
  unfold Closes
  rw [ExceptT.run_bind]
  exact closes_transaction h rfl (closes_ret _)

/-- A call whose error gets a context. -/
theorem closes_withContext {context : String} {x : Go α} (h : x.Closes) :
    (Go.withContext context x).Closes :=
  RowLock.Closes.bind h fun _ => closes_ret _

end Go

open Go

/-! ## The functions of `Redeem` -/

/-- `storeIdempotencyResponse` closes: it is a statement of its caller's transaction. -/
theorem closes_storeIdempotencyResponse (key : String) (resp : RedeemResponse) :
    (storeIdempotencyResponse key resp).Closes := by
  unfold storeIdempotencyResponse
  split_ifs
  · exact closes_pure _
  · exact closes_query _ _ _

/-- `claimKey` closes: its statements are in the transaction of its caller. -/
theorem closes_claimKey (t : Slot) (create lock unmarshal key : String) (hash : List UInt8)
    (decode : Json → Option α) : (claimKey t create lock unmarshal key hash decode).Closes := by
  unfold claimKey
  refine (closes_query _ _ _).bind fun created => ?_
  cases created with
  | some row => exact closes_pure _
  | none =>
    refine (closes_query _ _ _).bind fun existing => ?_
    cases existing with
    | none => exact closes_throw _
    | some row =>
      dsimp only
      split_ifs
      · exact closes_throw _
      · cases row.responseBody with
        | none => exact closes_pure _
        | some body =>
          dsimp only
          cases decode body with
          | none => exact closes_throw _
          | some resp => exact closes_pure _

/-- `refuse` closes: it works in the transaction of its caller, and commits it. -/
theorem closes_refuse (rt : Runtime) (req : RedeemRequest) (code userKey : String)
    (codeID batchID : Option ℕ) (resp : RedeemResponse) (commitErr : GoError) :
    (refuse rt req code userKey codeID batchID resp commitErr).Closes := by
  unfold refuse recordFailure
  cases resp.result with
  | other text hother =>
    exact (closes_throw _).bind fun _ => (closes_commit _ _).bind fun _ => closes_pure _
  | known result =>
    exact ((closes_query _ _ _).bind fun _ => closes_storeIdempotencyResponse _ _).bind fun _ =>
      (closes_commit _ _).bind fun _ => closes_pure _

/-- `getCodeByCode` closes: its statements are in the transaction of its caller. -/
theorem closes_getCodeByCode (code : String) : (getCodeByCode code).Closes := by
  refine (closes_query _ _ _).bind fun found => ?_
  cases found with
  | none => exact closes_pure _
  | some cb => exact (closes_query _ _ _).bind fun _ => closes_pure _

/-- `succeed` closes: it works in the transaction of its caller, and commits it. -/
theorem closes_succeed (rt : Runtime) (req : RedeemRequest) (code userKey : String) (c : Code)
    (b : Batch) (credential : Option Credential) :
    (succeed rt req code userKey c b credential).Closes := by
  have hevent : (successEventID b).Closes := by
    unfold successEventID
    split_ifs
    · exact closes_env _
    · exact closes_pure _
  have houtbox : ∀ pending event id, (createOutboxEvent pending event id).Closes := by
    intro pending event id
    unfold createOutboxEvent
    split_ifs
    · exact (closes_query _ _ _).bind fun _ => closes_pure _
    · exact closes_pure _
  have hmark : ∀ id, (markCredentialUsed credential id).Closes := by
    intro id
    cases credential with
    | none => exact closes_pure _
    | some x =>
      refine (closes_query _ _ _).bind fun marked => ?_
      cases marked with
      | none => exact closes_throw _
      | some y => exact closes_pure _
  -- The function itself opens no transaction, and it leaves the one that it is given to its
  -- caller.
  refine (closes_query _ _ _).bind fun counted => ?_
  cases counted with
  | none => exact closes_throw _
  | some n =>
    refine (closes_env _).bind fun redeemedAt => hevent.bind fun event => ?_
    refine (closes_query _ _ _).bind fun redemption => (houtbox _ _ _).bind fun _ => ?_
    refine (hmark _).bind fun _ => (closes_storeIdempotencyResponse _ _).bind fun _ => ?_
    exact (closes_commit _ _).bind fun _ => closes_pure _

/-- `redeemCode` closes: all of its ways out are in the transaction that it was called in. -/
theorem closes_redeemCode (rt : Runtime) (req : RedeemRequest) (code userKey : String) :
    (redeemCode rt req code userKey).Closes := by
  refine (closes_getCodeByCode _).bind fun found => ?_
  cases found with
  | none => exact closes_refuse _ _ _ _ _ _ _ _
  | some cb =>
    refine (closes_env _).bind fun now => ?_
    cases checkCodeState now cb.1 cb.2 with
    | some resp => exact closes_refuse _ _ _ _ _ _ _ _
    | none =>
      unfold redeemAvailable
      split_ifs
      · refine (closes_query _ _ _).bind fun cred => ?_
        cases cred with
        | none => exact closes_refuse _ _ _ _ _ _ _ _
        | some x => exact closes_succeed _ _ _ _ _ _ _
      · exact closes_succeed _ _ _ _ _ _ _

/-- `Redeem` closes: the deferred rollback ends the transaction that it has opened. -/
theorem closes_redeem (rt : Runtime) (req : RedeemRequest) : (redeem rt req).Closes := by
  unfold redeem
  cases checkInput req.trimmed (normalizeCode req.code) with
  | some resp => exact closes_pure _
  | none =>
    refine closes_deferRollback ?_
    unfold redeemTx
    split_ifs
    · exact closes_redeemCode _ _ _ _
    · refine (closes_claimKey _ _ _ _ _ _ _).bind fun stored => ?_
      cases stored with
      | some resp => exact closes_pure _
      | none => exact closes_redeemCode _ _ _ _

/-! ## The functions of `BatchRedeem` -/

/-- The loop over the codes closes, since every call of `Redeem` in it does. -/
theorem closes_redeemCodes (rt : Runtime) (req : BatchRedeemRequest) (codes seen : List String)
    (resp : BatchRedeemResponse) : (redeemCodes rt req seen resp codes).Closes := by
  induction codes generalizing seen resp with
  | nil => exact closes_pure _
  | cons code codes ih =>
    have hitem : (redeemItem rt req seen code).Closes := by
      unfold redeemItem
      cases itemError seen (normalizeCode code) with
      | some message => exact closes_pure _
      | none =>
        have h := closes_redeem rt (req.item code)
        dsimp only
        generalize redeem rt (req.item code) = x at h ⊢
        refine Go.Closes.bind (closes_withContext h) fun resp => ?_
        exact closes_pure _
    have hrest : ∀ r : List String × BatchRedeemItem,
        (redeemCodes rt req r.1 (resp.add r.2) codes).Closes := fun r => ih r.1 (resp.add r.2)
    rw [redeemCodes]
    generalize redeemItem rt req seen code = x at hitem ⊢
    exact hitem.bind hrest

/-- `BatchRedeem` closes: the deferred rollback ends the transaction of the key. -/
theorem closes_batchRedeem (rt : Runtime) (req : BatchRedeemRequest) :
    (batchRedeem rt req).Closes := by
  unfold batchRedeem
  cases checkBatchInput req.trimmed with
  | some resp => exact closes_pure _
  | none =>
    dsimp only
    split_ifs
    · exact closes_redeemCodes _ _ _ _ _
    · refine closes_deferRollback ((closes_claimKey _ _ _ _ _ _ _).bind fun stored => ?_)
      cases stored with
      | some resp => exact closes_pure _
      | none =>
        refine (closes_redeemCodes _ _ _ _ _).bind fun resp => ?_
        exact (closes_query _ _ _).bind fun _ => (closes_commit _ _).bind fun _ => closes_pure _

/-! ## Runs -/

section Runs

variable {ι : Type} [DecidableEq ι] {start : Start ι} {as : List (Action ι Choice)} {s : State ι}
  {i : ι}

/-- The call is a redemption, of one code or of several. -/
def Call.Redeems : Call → Prop
  | .redeem _ | .batchRedeem _ => True
  | _ => False

/-- A redemption that has returned or died has no open transaction. -/
theorem Start.closed (h : start.run as = some s) (hcall : (start.calls i).Redeems)
    (hdone : s.progs i = none ∨ ∃ r, s.progs i = some (.ret r)) (t : Slot) :
    s.db.txs i t = none := by
  have h0 : ∀ i t, start.state.db.txs i t = none := fun _ _ => rfl
  rcases hdone with hp | ⟨r, hp⟩
  · exact Sys.closed_of_died h h0 hp t
  · refine Sys.closed_of_ret h h0 (fun p hp => ?_) hp t
    simp only [Start.state, Option.some.injEq] at hp
    subst hp
    -- The programs are generalized, so that nothing evaluates them.
    cases hc : start.calls i with
    | redeem req =>
      have h := closes_redeem start.rt req
      rw [callProgram]
      unfold Go.Closes at h
      generalize (redeem start.rt req).run = x at h ⊢
      exact h.bind fun _ => closes_ret _
    | batchRedeem req =>
      have h := closes_batchRedeem start.rt req
      rw [callProgram]
      unfold Go.Closes at h
      generalize (batchRedeem start.rt req).run = x at h ⊢
      exact h.bind fun _ => closes_ret _
    | createBatch | toggleBatch | toggleCode | resendWebhook | importCredentials | deleteCredential
    | batchDeleteCredentials | worker =>
      rw [hc] at hcall
      exact hcall.elim

/-- When all redemptions have returned or died, no lock is owned. -/
theorem Start.owner_none (h : start.run as = some s) (hcalls : ∀ i, (start.calls i).Redeems)
    (hdone : ∀ i, s.progs i = none ∨ ∃ r, s.progs i = some (.ret r)) (l : Lock) :
    s.db.owner l = none := by
  by_contra hne
  obtain ⟨⟨i, t⟩, hw⟩ := Option.ne_none_iff_exists'.mp hne
  have hopen := (Start.inv h).lock.isOpen l i t hw
  rw [Start.closed h (hcalls i) (hdone i) t] at hopen
  cases hopen

end Runs

end CdkSystem
