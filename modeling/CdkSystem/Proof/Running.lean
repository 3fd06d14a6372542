import CdkSystem.Proof.Administering
import CdkSystem.Proof.BatchRedeeming
import CdkSystem.Proof.Delivering

/-!
# The outline holds in every run

Every call is safe from the start (`Start.safe`), so the outline holds in every state of every run
(`Start.holds`): the committed transactions are a history (`Start.history`), and a call that has
returned has done what its outcome says (`Start.returned`).

The safety of each call is put together from the specifications of its functions, and the soundness
of outlines does the rest. From here on the theorems about runs do not look at statements any more:
they speak of the commits of a history and of the outcome of a call.
-/

namespace CdkSystem

open RowLock Relational

variable {ι : Type} [DecidableEq ι] {start : Start ι} {i : ι} {d d' : Database ι}
  {as : List (Action ι Choice)} {s : State ι}

omit [DecidableEq ι] in
/-- What a call has done since a quiet time it has done since the beginning of that time. -/
theorem RedeemOutcome.of_quiet [DecidableEq ι] {req : RedeemRequest} {base : Database ι}
    {r : Except GoError RedeemResponse} (hq : Quiet i base d)
    (h : RedeemOutcome start i req d d' r) :
    RedeemOutcome start i req base d' r := by
  cases h with
  | invalid hinput hq' => exact .invalid hinput (hq.trans hq')
  | answered hinput ha hq' => exact .answered hinput ha (hq.trans hq')
  | redeemed hinput he hlog hfailed hfull =>
    exact .redeemed hinput he (by rw [hlog, hq.log]) (hfailed.trans hq.failed) hfull
  | failed hf => exact .failed (hf.of_quiet hq)

/-- What a program returns is what its part leaves. -/
theorem safe_of_wp {α : Type} {x : M α} {f : α → Result} {post : α → Database ι → Prop}
    (h : start.Wp i x post d)
    (hpost : ∀ a d', post a d' → start.Returned i d' (start.calls i) (f a)) :
    start.outline.Safe postgres Lock.Same i (x >>= fun a => .ret (f a)) d :=
  Outline.Wp.safe (Outline.Wp.bind (h.mono fun a d' ha => .ret (hpost a d' ha)))

/-- Every call is safe from the start. -/
theorem Start.safe (hr : start.outline.Rely Lock.Same i start.state.db d) :
    start.outline.Safe postgres Lock.Same i (callProgram start.rt (start.calls i)) d := by
  have hinv : start.Inv d := hr.inv
  have hlog : d.ownLog i = [] := hr.own.log
  -- The programs are generalized, so that nothing evaluates them.
  cases hcall : start.calls i with
  | redeem req =>
    have hmay : start.MayRedeem i req.trimmed d := by
      refine ⟨fun log e resp he => ?_, fun breq hbreq => ?_⟩
      · rw [hcall]
        exact .redeem he
      · rw [hcall] at hbreq
        cases hbreq
    have h := redeem_wp hinv hmay
    rw [callProgram]
    generalize (redeem start.rt req).run = x at h ⊢
    refine safe_of_wp h fun r d' hr' => ?_
    rw [hcall]
    exact hr'.1.of_quiet hr.own
  | batchRedeem req =>
    have h := batchRedeem_wp hcall hinv hlog
    rw [callProgram]
    generalize (batchRedeem start.rt req).run = x at h ⊢
    exact safe_of_wp h fun r d' hr' => by rwa [hcall]
  | createBatch req draws =>
    have h := createBatchHandler_wp hcall hinv hlog
    rw [callProgram]
    generalize createBatchHandler start.rt req draws = x at h ⊢
    exact safe_of_wp h fun r d' hr' => by rwa [hcall]
  | toggleBatch id =>
    have h := toggleBatch_wp hcall hinv
    rw [callProgram]
    generalize toggleBatch id = x at h ⊢
    exact safe_of_wp h fun _ _ _ => by rw [hcall]; trivial
  | toggleCode id =>
    have h := toggleCode_wp hcall hinv
    rw [callProgram]
    generalize toggleCode id = x at h ⊢
    exact safe_of_wp h fun _ _ _ => by rw [hcall]; trivial
  | resendWebhook id =>
    have h := resendWebhook_wp hcall hinv
    rw [callProgram]
    generalize resendWebhook id = x at h ⊢
    exact safe_of_wp h fun _ _ _ => by rw [hcall]; trivial
  | importCredentials items =>
    have h := importCredentials_wp hcall hinv
    rw [callProgram]
    generalize (importCredentials items).run = x at h ⊢
    exact safe_of_wp h fun _ _ _ => by rw [hcall]; trivial
  | deleteCredential id =>
    have h := deleteCredential_wp hcall hinv
    rw [callProgram]
    generalize deleteCredential id = x at h ⊢
    exact safe_of_wp h fun _ _ _ => by rw [hcall]; trivial
  | batchDeleteCredentials ids =>
    have h := batchDeleteCredentials_wp hcall hinv
    rw [callProgram]
    generalize batchDeleteCredentials ids = x at h ⊢
    exact safe_of_wp h fun _ _ _ => by rw [hcall]; trivial
  | worker turns =>
    have h : start.Wp i (processBatch start.rt turns) (fun _ d' => start.Inv d') d :=
      processBatch_wp hcall hinv
    rw [callProgram]
    generalize processBatch start.rt turns = x at h ⊢
    exact safe_of_wp (f := fun _ => .worker) h fun _ _ _ => by rw [hcall]; trivial

/-- The outline holds in every state that a run reaches. -/
theorem Start.holds (h : start.run as = some s) : start.outline.Holds postgres Lock.Same s :=
  Start.holds_run (fun _ _ hr => Start.safe hr) h

/-- The invariant of the database holds in every state that a run reaches. -/
theorem Start.inv (h : start.run as = some s) : start.Inv s.db := (Start.holds h).inv

/-- The committed transactions of every run are a history. -/
theorem Start.history (h : start.run as = some s) : History start s.db.log s.db.tables :=
  (Start.inv h).history

/-- The assertion at the next operation of every call holds. -/
theorem Start.asserts (h : start.run as = some s) {p : M Result} (hp : s.progs i = some p) :
    start.At i p s.db :=
  (Start.holds h).asserts postgres_lawful start.outline_lawful hp

/-- What has been done by a call that has returned. -/
theorem Start.returned (h : start.run as = some s) {r : Result} (hp : s.progs i = some (.ret r)) :
    start.Returned i s.db (start.calls i) r :=
  Start.asserts h hp

/-- A redemption that has returned has one of its outcomes. -/
theorem Start.redeem_returned (h : start.run as = some s) {req : RedeemRequest} {r : Result}
    (hcall : start.calls i = .redeem req) (hp : s.progs i = some (.ret r)) :
    ∃ r', r = .redeem r' ∧ RedeemOutcome start i req start.state.db s.db r' := by
  have hr := Start.returned h hp
  rw [hcall] at hr
  cases r with
  | redeem r => exact ⟨r, rfl, hr⟩
  | batchRedeem r | reply r | imported r | worker => exact hr.elim

/-- A batch redemption that has returned has one of its outcomes. -/
theorem Start.batchRedeem_returned (h : start.run as = some s) {req : BatchRedeemRequest}
    {r : Result} (hcall : start.calls i = .batchRedeem req) (hp : s.progs i = some (.ret r)) :
    ∃ r', r = .batchRedeem r' ∧ BatchOutcome start i req s.db r' := by
  have hr := Start.returned h hp
  rw [hcall] at hr
  cases r with
  | batchRedeem r => exact ⟨r, rfl, hr⟩
  | redeem r | reply r | imported r | worker => exact hr.elim

/-- A creation of a batch that has returned has one of its outcomes. -/
theorem Start.createBatch_returned (h : start.run as = some s) {req : CreateBatchRequest}
    {draws : List (Fin 31)} {r : Result} (hcall : start.calls i = .createBatch req draws)
    (hp : s.progs i = some (.ret r)) :
    ∃ r', r = .reply r' ∧ CreateOutcome start i req draws s.db r' := by
  have hr := Start.returned h hp
  rw [hcall] at hr
  cases r with
  | reply r => exact ⟨r, rfl, hr⟩
  | redeem r | batchRedeem r | imported r | worker => exact hr.elim

end CdkSystem
