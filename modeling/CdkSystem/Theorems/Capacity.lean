import CdkSystem.Lib.Ledger
import CdkSystem.Proof.Closed
import CdkSystem.Theorems.SingleIdempotency

/-!
# Concurrent redemptions lose no capacity

When all calls are redemptions without keys and none of their operations fails, then as many of them
succeed for each code as the code has uses left, or all of them if there are fewer
(`no_capacity_lost`): a call is only refused when the others have taken all uses, or all
credentials. The commits of the calls are a ledger, in which each call that passes the validation
has one entry.

A commit of a success takes one use of its code and one credential of its plan, and a refusal is
made from tables in which the use count or the stock was already at its end. Summing the changes
over the ledger gives the number of successes for each code.
-/

namespace CdkSystem

open RowLock Relational

variable {ι : Type} {start : Start ι} {reqs : ι → RedeemRequest} {resps : ι → RedeemResponse}

/-! ## The commits of a history -/

/-- The commits of a history are a ledger of the tables. -/
theorem History.ledger [DecidableEq ι] {log : List (Commit ι Tables)} {T : Tables}
    (h : History start log T) : Ledger Commit.before Commit.after start.tables log T := by
  induction h with
  | start => exact .nil
  | commit h time he ih => exact .snoc ih

/-- The number of credentials of a plan that are available at a time. -/
def Tables.stock (T : Tables) (now : Time) (plan : String) : ℕ :=
  T.credentials.count fun x => x.available now plan

/-- The use count of a code, which is zero for one that is not there. -/
def Tables.uses (T : Tables) (id : ℕ) : ℤ := ((T.codes.get? id).map Code.useCount).getD 0

/-- The use count of a code after a use of a code. -/
theorem Tables.uses_of_modify {T T' : Tables} {id id' : ℕ} {c : Code}
    (hc : T.codes.get? id = some c)
    (h : T'.codes = T.codes.modify id' Code.incrementUseCount Code.key_incrementUseCount) :
    T'.uses id = T.uses id + if id = id' then 1 else 0 := by
  unfold Tables.uses
  rw [h, Table.get?_modify]
  by_cases hid : id = id'
  · rw [if_pos hid, if_pos hid, ← hid, hc]
    rfl
  · rw [if_neg hid, if_neg hid, Int.add_zero]

/-- The batch of a code of the start has so many uses left for the code. -/
def Start.room (start : Start ι) (c : Code) : ℕ :=
  match start.tables.batches.get? c.batchId with
  | some b => (b.maxUsesPerCode - c.useCount).toNat
  | none => 0

/-- All calls are redemptions without keys. Those that pass the validation are for codes that exist
and are enabled, of batches that are active and do not expire before a time. -/
structure PlainRedeems (start : Start ι) (reqs : ι → RedeemRequest) (last : Time) : Prop where
  calls : ∀ i, start.calls i = .redeem (reqs i)
  keys : ∀ i, (reqs i).idempotencyKey = ""
  codes : ∀ i, (reqs i).Accepted → ∃ c ∈ start.tables.codes, ∃ b,
    c.code = normalizeCode (reqs i).code ∧ c.status = .unused ∧
      start.tables.batches.get? c.batchId = some b ∧ b.status = .active ∧
        ∀ t, b.expiresAt = some t → last ≤ t

variable [DecidableEq ι]

/-- What is known of the calls when all of them have returned: those that pass the validation have
committed once, and the others have not. -/
structure Served (start : Start ι) (reqs : ι → RedeemRequest) (resps : ι → RedeemResponse)
    (d : Database ι) : Prop where
  history : History start d.log d.tables
  times : ∀ e ∈ d.log, e.time ≤ d.clock
  redeemed : ∀ i, (reqs i).Accepted → ∃ e, d.ownLog i = [e] ∧
    Redeemed start.rt start.clock (Past d.log d.tables) (reqs i).trimmed e (resps i) ∧
      ((resps i).result = .known .credentialUnavailable →
        start.Exhausted (normalizeCode (reqs i).code) d)
  rejected : ∀ i, ¬(reqs i).Accepted → d.ownLog i = [] ∧ (resps i).ok = false

/-- A call that has returned without a failure has a response, and has been served. -/
theorem PlainRedeems.returned {last : Time} (hs : PlainRedeems start reqs last)
    {as : List (Action ι Choice)} {s : State ι} (h : start.run as = some s) {i : ι} {r : Result}
    (hret : s.progs i = some (.ret r)) (hfail : s.db.failed i = false) :
    ∃ resp, r = .redeem (.ok resp) ∧
      (((reqs i).Accepted ∧ ∃ e, s.db.ownLog i = [e] ∧
        Redeemed start.rt start.clock (Past s.db.log s.db.tables) (reqs i).trimmed e resp ∧
          (resp.result = .known .credentialUnavailable →
            start.Exhausted (normalizeCode (reqs i).code) s.db)) ∨
        (¬(reqs i).Accepted ∧ s.db.ownLog i = [] ∧ resp.ok = false)) := by
  obtain ⟨r', rfl, hr⟩ := Start.redeem_returned h (hs.calls i) hret
  have hkey := hs.keys i
  cases hr with
  | @invalid resp hinput hq =>
    have hnot : ¬(reqs i).Accepted := fun hacc => by
      have hnone : checkInput (reqs i).trimmed (normalizeCode (reqs i).code) = none := hacc
      rw [hnone] at hinput
      cases hinput
    refine ⟨resp, rfl, Or.inr ⟨hnot, hq.log, ?_⟩⟩
    unfold checkInput at hinput
    split_ifs at hinput <;> (obtain rfl := Option.some.inj hinput; rfl)
  | answered hinput hans hq => cases hans <;> exact absurd hkey ‹_ ≠ ""›
  | @redeemed e resp hinput he hlog hfailed hfull =>
    exact ⟨resp, rfl, Or.inl ⟨hinput, e, hlog, he, hfull⟩⟩
  | failed hf =>
    have htrue := hf.failed
    rw [hfail] at htrue
    cases htrue

/-- What a commit of a call for the code `c` of the batch `b` does to the codes and to the
credentials. -/
inductive Serves (clock last : Time) (c : Code) (b : Batch) (e : Commit ι Tables)
    (resp : RedeemResponse) : Prop
  /-- All uses of the code are taken. -/
  | usedUp (result : resp.ok = false ∧ resp.result = .known .codeUsedUp)
      (full : b.maxUsesPerCode ≤ e.before.uses c.id) (codes : e.after.codes = e.before.codes)
      (credentials : e.after.credentials = e.before.credentials)
  /-- All credentials are taken. -/
  | unavailable (result : resp.ok = false ∧ resp.result = .known .credentialUnavailable)
      (assign : b.assignCredential = true) (codes : e.after.codes = e.before.codes)
      (credentials : e.after.credentials = e.before.credentials)
  /-- A use of the code is taken, and a credential if the batch assigns one. -/
  | granted (g : Grant) (result : resp.ok = true ∧ resp.result = .known .success)
      (room : e.before.uses c.id < b.maxUsesPerCode)
      (codes : e.after.codes =
        e.before.codes.modify c.id Code.incrementUseCount Code.key_incrementUseCount)
      (credentials : e.after.credentials = g.credentialsAfter e.before.credentials)
      (assigns : g.Assigns e.before) (batch : g.batch = b)
      (createdAt : clock ≤ g.redemption.createdAt ∧ g.redemption.createdAt ≤ last)

/-- The calls for a code that pass the validation. -/
def callsOn [Fintype ι] (reqs : ι → RedeemRequest) (c : Code) : Finset ι :=
  Finset.univ.filter fun i => (reqs i).Accepted ∧ normalizeCode (reqs i).code = c.code

/-- The calls that have succeeded, as the set of those whose response is ok. -/
def granted [Fintype ι] (resps : ι → RedeemResponse) : Finset ι :=
  Finset.univ.filter fun i => (resps i).ok

/-- The calls that can succeed: for each code as many as it has uses left, or all of them. -/
def Start.capacity [Fintype ι] (start : Start ι) (reqs : ι → RedeemRequest) : ℕ :=
  (start.tables.codes.rows.map fun c => min (callsOn reqs c).card (start.room c)).sum

/-- All codes that are called belong to batches that assign credentials of one plan. -/
def AssignFrom (start : Start ι) (reqs : ι → RedeemRequest) (plan : String) : Prop :=
  ∀ i, (reqs i).Accepted → ∀ c ∈ start.tables.codes, c.code = normalizeCode (reqs i).code →
    ∀ b, start.tables.batches.get? c.batchId = some b →
      b.assignCredential = true ∧ b.credentialPlanType = plan

/-- No batch of a code that is called assigns credentials. -/
def AssignNone (start : Start ι) (reqs : ι → RedeemRequest) : Prop :=
  ∀ i, (reqs i).Accepted → ∀ c ∈ start.tables.codes, c.code = normalizeCode (reqs i).code →
    ∀ b, start.tables.batches.get? c.batchId = some b → b.assignCredential = false

/-- No credential of the start expires between the start and a time. -/
def Start.Unexpiring (start : Start ι) (last : Time) : Prop :=
  ∀ x ∈ start.tables.credentials, ∀ t, x.expired = some t → t ≤ start.clock ∨ last < t

omit [DecidableEq ι] in
/-- When nothing expires, a credential is available all the time or not at all. -/
theorem Start.Unexpiring.available_eq {last : Time} (h : start.Unexpiring last) {x : Credential}
    (hx : x ∈ start.tables.credentials) {used : Bool} {redemption : Option ℕ} {now : Time}
    (hnow : start.clock ≤ now ∧ now ≤ last) {plan : String} :
    ({ x with used := used, redemptionId := redemption } : Credential).available now plan =
      ({ x with used := used, redemptionId := redemption } : Credential).available start.clock
        plan := by
  unfold Credential.available
  congr 2
  dsimp only
  cases hexp : x.expired with
  | none => rfl
  | some t =>
    rcases h x hx t hexp with hbefore | hafter
    · have hnot : ¬ now < t := not_lt.mpr (hbefore.trans hnow.1)
      have hnot' : ¬ start.clock < t := not_lt.mpr hbefore
      simp [hnot, hnot']
    · have hlt : now < t := hnow.2.trans_lt hafter
      have hlt' : start.clock < t := hnow.1.trans_lt hlt
      simp [hlt, hlt']

namespace Served

variable {d : Database ι} {e : Commit ι Tables} {T : Tables} {c : Code} {b : Batch}

/-- Every commit is the one of a call that passes the validation. -/
theorem entry (hv : Served start reqs resps d) (he : e ∈ d.log) :
    (reqs e.caller).Accepted ∧ d.ownLog e.caller = [e] ∧
      Redeemed start.rt start.clock (Past d.log d.tables) (reqs e.caller).trimmed e
        (resps e.caller) := by
  have hown : e ∈ d.ownLog e.caller := List.mem_filter.mpr ⟨he, by simp⟩
  rcases Classical.em (reqs e.caller).Accepted with hacc | hnot
  · obtain ⟨e', hlog, hred, -⟩ := hv.redeemed e.caller hacc
    rw [hlog] at hown
    obtain rfl := List.mem_singleton.mp hown
    exact ⟨hacc, hlog, hred⟩
  · rw [(hv.rejected e.caller hnot).1] at hown
    cases hown

/-- What holds at the start and is kept by all commits holds of all past tables. -/
theorem past (hv : Served start reqs resps d) {P : Tables → Prop} (h0 : P start.tables)
    (hstep : ∀ e ∈ d.log, P e.before → P e.after) (hT : Past d.log d.tables T) : P T := by
  rcases hT with rfl | ⟨e, he, rfl⟩
  · exact hv.history.ledger.invariant h0 hstep
  · exact hv.history.ledger.invariant_first h0 hstep e he

/-- The batches stay as they are, since no call of these runs touches them. -/
theorem batches (hv : Served start reqs resps d) (hT : Past d.log d.tables T) :
    T.batches = start.tables.batches := by
  refine hv.past (P := fun T => T.batches = start.tables.batches) rfl (fun e he hbefore => ?_) hT
  have hkept : e.after.batches = e.before.batches := by
    cases (hv.entry he).2.2 with
    | refused reason known new hcreated free after => rw [after, tables_refused]
    | succeeded inOrder response free after => rw [after, tables_succeeded]
  exact hkept.trans hbefore

/-- The codes keep all but their use counts. -/
theorem code (hv : Served start reqs resps d) (hc : c ∈ start.tables.codes)
    (hT : Past d.log d.tables T) :
    T.codes.get? c.id = some { c with useCount := T.uses c.id } := by
  have h0 : start.tables.codes.get? c.id = some c := Table.get?_of_mem hc
  refine hv.past (P := fun T => T.codes.get? c.id = some { c with useCount := T.uses c.id }) ?_
    (fun e he hbefore => ?_) hT
  · unfold Tables.uses
    rw [h0]
    rfl
  · rcases (hv.entry he).2.2.consumesOne.codes with hsame | ⟨id, hmodify⟩
    · unfold Tables.uses at hbefore ⊢
      rw [hsame]
      exact hbefore
    · have hget : e.after.codes.get? c.id =
          if c.id = id then (e.before.codes.get? id).map Code.incrementUseCount
          else e.before.codes.get? c.id := by
        rw [hmodify, Table.get?_modify]
      by_cases hid : c.id = id
      · rw [if_pos hid, ← hid, hbefore] at hget
        unfold Tables.uses
        rw [hget]
        rfl
      · rw [if_neg hid] at hget
        unfold Tables.uses at hbefore ⊢
        rw [hget]
        exact hbefore

/-- The code that a commit has found is the one of its text, with the batch of the start. -/
theorem found (hv : Served start reqs resps d) (hc : c ∈ start.tables.codes)
    (hb : start.tables.batches.get? c.batchId = some b) (hT : Past d.log d.tables T) {c' : Code}
    {b' : Batch} (hfound : FoundCode (Past d.log d.tables) T c.code c' b') :
    c' = { c with useCount := T.uses c.id } ∧ b' = b := by
  have hcode := hv.code hc hT
  have hsame : c' = { c with useCount := T.uses c.id } :=
    (hv.history.integrity hT).codeText c' (Table.mem_of_get? hfound.row) _
      (Table.mem_of_get? hcode) hfound.text
  obtain ⟨T', hT', hb'⟩ := hfound.batch
  rw [hv.batches hT', hsame] at hb'
  exact ⟨hsame, Option.some.inj (hb'.symm.trans hb)⟩

/-- A code that is enabled, of a batch that is active and does not expire, is only refused when its
uses are taken. -/
theorem usedUp_of_checkCodeState {now last : Time} {n : ℤ} {resp : RedeemResponse}
    (hstatus : c.status = .unused) (hactive : b.status = .active)
    (hexpires : ∀ t, b.expiresAt = some t → last ≤ t) (hnow : now ≤ last)
    (h : checkCodeState now { c with useCount := n } b = some resp) :
    resp = failure .codeUsedUp "该兑换码已被使用完" ∧ b.maxUsesPerCode ≤ n := by
  have hunexpired : ¬ (b.expiresAt.any fun t => t < now) = true := by
    intro hany
    obtain ⟨t, ht, hlt⟩ := (Option.any_eq_true _ _).mp hany
    exact absurd (of_decide_eq_true hlt) (not_lt.mpr (hnow.trans (hexpires t ht)))
  unfold checkCodeState at h
  rw [if_neg (by simp [hstatus]), if_neg (by simp [hactive]), if_neg hunexpired] at h
  split_ifs at h with hfull
  exact ⟨(Option.some.inj h).symm, hfull⟩

/-- Every commit serves its call, for the code that the call has named. -/
theorem serves (hv : Served start reqs resps d) (hs : PlainRedeems start reqs d.clock)
    (he : e ∈ d.log) : ∃ c ∈ start.tables.codes, ∃ b, c.code = normalizeCode (reqs e.caller).code ∧
      start.tables.batches.get? c.batchId = some b ∧
        Serves start.clock d.clock c b e (resps e.caller) := by
  obtain ⟨hacc, -, hred⟩ := hv.entry he
  obtain ⟨c, hc, b, htext, hstatus, hb, hactive, hexpires⟩ := hs.codes e.caller hacc
  have hbefore : Past d.log d.tables e.before := Or.inr ⟨e, he, rfl⟩
  have htime := hv.times e he
  refine ⟨c, hc, b, htext, hb, ?_⟩
  have htext' : normalizeCode (reqs e.caller).trimmed.code = c.code := htext.symm
  cases hred with
  -- A refusal touches neither codes nor credentials, and an existing code is not refused as
  -- unknown.
  | @refused codeID batchID resp result id createdAt reason known new hcreated free after =>
    have hcodes : e.after.codes = e.before.codes := by rw [after, tables_refused]
    have hcredentials : e.after.credentials = e.before.credentials := by rw [after, tables_refused]
    rw [htext'] at reason
    generalize resps e.caller = resp at reason known ⊢
    cases reason with
    | invalidCode hpast hnone => exact absurd ⟨_, Table.mem_of_get? (hv.code hc hpast), rfl⟩ hnone
    | @state c' b' now resp hfound hnow hcheck =>
      obtain ⟨rfl, rfl⟩ := hv.found hc hb hbefore hfound
      obtain ⟨rfl, hfull⟩ := usedUp_of_checkCodeState hstatus hactive hexpires
        (hnow.2.trans htime) hcheck
      exact .usedUp ⟨rfl, rfl⟩ hfull hcodes hcredentials
    | @noCredential c' b' now hfound hnow hcheck hassign =>
      obtain ⟨rfl, rfl⟩ := hv.found hc hb hbefore hfound
      exact .unavailable ⟨rfl, rfl⟩ hassign hcodes hcredentials
  -- A success was checked on the row that it counts up, so that row had a use left.
  | @succeeded g redeemedAt resp inOrder response free after =>
    have hfound := inOrder.found
    rw [htext'] at hfound
    obtain ⟨hcode, hbatch⟩ := hv.found hc hb hbefore hfound
    obtain ⟨now, -, -, hcheck⟩ := inOrder.checked
    have hroom := (checkCodeState_eq_none hcheck).2
    rw [hcode, hbatch] at hroom
    have hid : g.code.id = c.id := by rw [hcode]
    refine .granted g (by rw [response]; exact ⟨rfl, rfl⟩) hroom ?_
      (by rw [after, tables_succeeded])
      inOrder.assigns hbatch ⟨inOrder.createdAt.1, inOrder.createdAt.2.trans htime⟩
    rw [after, tables_succeeded, ← hid]

/-! ## Uses -/

variable [Fintype ι]

/-- What the commits of some of the calls count, counts these calls. -/
theorem sum_entries (hv : Served start reqs resps d) {P : ι → Prop} [DecidablePred P]
    (hP : ∀ i, P i → (reqs i).Accepted) {f : Commit ι Tables → ℤ}
    (hf : ∀ e ∈ d.log, f e = if P e.caller then 1 else 0) :
    (d.log.map f).sum = (Finset.univ.filter P).card := by
  have hown : ∀ i, ((d.log.filter fun e => e.caller = i).map f).sum = if P i then 1 else 0 := by
    intro i
    change ((d.ownLog i).map f).sum = _
    rcases Classical.em (reqs i).Accepted with hacc | hnot
    · obtain ⟨e, hlog, -, -⟩ := hv.redeemed i hacc
      have he : e ∈ d.ownLog i := by
        rw [hlog]
        exact List.mem_singleton_self e
      have hmem := List.mem_filter.mp he
      have hcaller : e.caller = i := of_decide_eq_true hmem.2
      rw [hlog, List.map_singleton, List.sum_singleton, hf e hmem.1, hcaller]
    · rw [(hv.rejected i hnot).1, if_neg fun h => hnot (hP i h)]
      rfl
  rw [sum_owners Commit.caller, Finset.sum_congr rfl fun i _ => hown i, Finset.sum_boole]

omit [DecidableEq ι] [Fintype ι] in
/-- The use count of a code of the start. -/
theorem uses_start (hc : c ∈ start.tables.codes) : start.tables.uses c.id = c.useCount := by
  have hget : start.tables.codes.get? c.id = some c := Table.get?_of_mem hc
  unfold Tables.uses
  rw [hget]
  rfl

/-- A code has been used as often as calls for it have succeeded. -/
theorem uses_eq (hv : Served start reqs resps d) (hs : PlainRedeems start reqs d.clock)
    (hc : c ∈ start.tables.codes) :
    d.tables.uses c.id = c.useCount + (callsOn reqs c ∩ granted resps).card := by
  -- Each commit changes the uses by one if it serves a successful call for the code.
  have hstep : ∀ e ∈ d.log, e.after.uses c.id - e.before.uses c.id =
      if ((reqs e.caller).Accepted ∧ normalizeCode (reqs e.caller).code = c.code) ∧
        (resps e.caller).ok = true then 1 else 0 := by
    intro e he
    obtain ⟨c', hc', b, htext, hb, hserves⟩ := hv.serves hs he
    have hbefore := hv.code hc (Or.inr ⟨e, he, rfl⟩)
    cases hserves with
    | usedUp result full codes credentials | unavailable result assign codes credentials =>
      rw [if_neg fun h => by simp [result.1] at h]
      unfold Tables.uses
      rw [codes, sub_self]
    | granted g result room codes credentials assigns batch createdAt =>
      rw [Tables.uses_of_modify hbefore codes, add_sub_cancel_left]
      refine if_congr ?_ rfl rfl
      rw [← htext]
      constructor
      · intro hid
        have heq : c = c' := Table.key_injective hc hc' hid
        exact ⟨⟨(hv.entry he).1, by rw [heq]⟩, result.1⟩
      · rintro ⟨⟨-, hcode⟩, -⟩
        rw [start.integrity.codeText c hc c' hc' hcode.symm]
  -- The changes add up over the ledger.
  have hsum := hv.history.ledger.sum_change fun T => T.uses c.id
  have hcount := hv.sum_entries (P := fun i => ((reqs i).Accepted ∧
    normalizeCode (reqs i).code = c.code) ∧ (resps i).ok = true) (fun i hi => hi.1.1) hstep
  rw [hcount, uses_start hc] at hsum
  rw [callsOn, granted, ← Finset.filter_and]
  omega

omit [Fintype ι] in
/-- A code that was not used too often at the start is not used more often than its batch allows. -/
theorem uses_le (hv : Served start reqs resps d) (hs : PlainRedeems start reqs d.clock)
    (hc : c ∈ start.tables.codes) (hb : start.tables.batches.get? c.batchId = some b) :
    d.tables.uses c.id ≤ max c.useCount b.maxUsesPerCode := by
  rw [← uses_start hc]
  refine hv.history.ledger.le_max (fun T => T.uses c.id) fun e he => ?_
  obtain ⟨c', hc', b', htext, hb', hserves⟩ := hv.serves hs he
  have hbefore := hv.code hc (Or.inr ⟨e, he, rfl⟩)
  cases hserves with
  | usedUp result full codes credentials | unavailable result assign codes credentials =>
    unfold Tables.uses
    rw [codes]
    exact le_max_left _ _
  | granted g result room codes credentials assigns batch createdAt =>
    rw [Tables.uses_of_modify hbefore codes]
    split_ifs with hid
    · obtain rfl := Table.key_injective hc hc' hid
      obtain rfl := Option.some.inj (hb'.symm.trans hb)
      exact le_max_of_le_right room
    · rw [add_zero]
      exact le_max_left _ _

/-- A call for a code has been served by a commit. -/
theorem serves_call (hv : Served start reqs resps d) (hs : PlainRedeems start reqs d.clock)
    (hc : c ∈ start.tables.codes) (hb : start.tables.batches.get? c.batchId = some b) {i : ι}
    (hi : i ∈ callsOn reqs c) :
    ∃ e ∈ d.log, e.caller = i ∧ Serves start.clock d.clock c b e (resps i) := by
  obtain ⟨-, hacc, hcode⟩ := Finset.mem_filter.mp hi
  obtain ⟨e, hlog, -, -⟩ := hv.redeemed i hacc
  have hown : e ∈ d.ownLog i := by
    rw [hlog]
    exact List.mem_singleton_self e
  obtain ⟨he, hcaller⟩ := List.mem_filter.mp hown
  obtain rfl : e.caller = i := of_decide_eq_true hcaller
  obtain ⟨c', hc', b', htext, hb', hserves⟩ := hv.serves hs he
  obtain rfl := start.integrity.codeText c hc c' hc' (hcode.symm.trans htext.symm)
  obtain rfl := Option.some.inj (hb'.symm.trans hb)
  exact ⟨e, he, rfl, hserves⟩

/-- When a call for a code is refused for its uses, then all of them have been taken. -/
theorem le_uses (hv : Served start reqs resps d) (hs : PlainRedeems start reqs d.clock)
    (hc : c ∈ start.tables.codes) (hb : start.tables.batches.get? c.batchId = some b) {i : ι}
    (hi : i ∈ callsOn reqs c) (hused : (resps i).result = .known .codeUsedUp) :
    b.maxUsesPerCode ≤ d.tables.uses c.id := by
  obtain ⟨e, he, -, hserves⟩ := hv.serves_call hs hc hb hi
  have hpast : Past d.log d.tables e.before := Or.inr ⟨e, he, rfl⟩
  have hmono : e.before.uses c.id ≤ d.tables.uses c.id := by
    obtain ⟨c₁, hc₁, hlater⟩ := (hv.history.past_evolves hpast).codes _ _ (hv.code hc hpast)
    have hle := hlater.useCount
    unfold Tables.uses at hle ⊢
    rw [hc₁]
    exact hle
  cases hserves with
  | usedUp result full codes credentials => exact full.trans hmono
  | unavailable result assign codes credentials =>
    rw [result.2] at hused
    cases hused
  | granted g result room codes credentials assigns batch createdAt =>
    rw [result.2] at hused
    cases hused

/-- The calls for a code succeed as often as it has uses left, or all of them do, unless one of them
finds no credential. -/
theorem card_granted (hv : Served start reqs resps d) (hs : PlainRedeems start reqs d.clock)
    (hc : c ∈ start.tables.codes) :
    (callsOn reqs c ∩ granted resps).card ≤
      min (callsOn reqs c).card (start.room c) ∧
    ((∀ i ∈ callsOn reqs c, (resps i).result ≠ .known .credentialUnavailable) →
      (callsOn reqs c ∩ granted resps).card =
        min (callsOn reqs c).card (start.room c)) := by
  obtain ⟨b, hb⟩ := start.integrity.codeBatch c hc
  have hroom : start.room c = (b.maxUsesPerCode - c.useCount).toNat := by
    unfold Start.room
    rw [hb]
  have heq := hv.uses_eq hs hc
  have hle := hv.uses_le hs hc hb
  have hsub : (callsOn reqs c ∩ granted resps).card ≤ (callsOn reqs c).card :=
    Finset.card_le_card Finset.inter_subset_left
  have hbound : (callsOn reqs c ∩ granted resps).card ≤
      min (callsOn reqs c).card (start.room c) := by
    rw [hroom]
    omega
  refine ⟨hbound, fun hall => ?_⟩
  rcases Classical.em (∀ i ∈ callsOn reqs c, (resps i).ok = true) with hok | hnot
  · -- All calls for the code have succeeded.
    have hall : callsOn reqs c ∩ granted resps = callsOn reqs c :=
      Finset.inter_eq_left.mpr fun i hi => Finset.mem_filter.mpr ⟨Finset.mem_univ i, hok i hi⟩
    rw [hall] at hbound ⊢
    omega
  · -- A call that was refused has found all uses taken.
    push Not at hnot
    obtain ⟨i, hi, hrefused⟩ := hnot
    have hused : (resps i).result = .known .codeUsedUp := by
      obtain ⟨e, -, -, hserves⟩ := hv.serves_call hs hc hb hi
      cases hserves with
      | usedUp result full codes credentials => exact result.2
      | unavailable result assign codes credentials => exact absurd result.2 (hall i hi)
      | granted g result room codes credentials assigns batch createdAt =>
        exact absurd result.1 hrefused
    have hfull := hv.le_uses hs hc hb hi hused
    rw [hroom] at hbound ⊢
    omega

/-! ## Credentials -/

omit [Fintype ι] in
/-- Credentials are only handed out: none of them is deleted or taken back. -/
theorem credentialsKept (hv : Served start reqs resps d) (first : ℕ)
    (hT : Past d.log d.tables T) : CredentialsKept first start.tables T := by
  refine hv.past (P := CredentialsKept first start.tables) (.of_eq rfl) (fun e he hbefore => ?_) hT
  exact hbefore.trans ((hv.entry he).2.2.credentialsKept first)

omit [Fintype ι] in
/-- When nothing expires, a credential is available all the time or not at all, until it is handed
out. -/
theorem available_eq (hv : Served start reqs resps d) (hsteady : start.Unexpiring d.clock)
    (hT : Past d.log d.tables T) {x : Credential} (hx : x ∈ T.credentials) {now : Time}
    (hnow : start.clock ≤ now ∧ now ≤ d.clock) {plan : String} :
    x.available now plan = x.available start.clock plan := by
  obtain ⟨x₀, hx₀, ⟨used, redemption, rfl⟩, -⟩ :=
    hv.credentialsKept (x.id + 1) hT x.id x (Nat.lt_succ_self _) (Table.get?_of_mem hx)
  exact hsteady.available_eq (Table.mem_of_get? hx₀) hnow

/-- The calls succeed as often as credentials of the plan have been handed out. -/
theorem stock_eq (hv : Served start reqs resps d) (hs : PlainRedeems start reqs d.clock)
    {plan : String} (hplan : AssignFrom start reqs plan) (hsteady : start.Unexpiring d.clock) :
    d.tables.stock start.clock plan + (granted resps).card =
      start.tables.stock start.clock plan := by
  have hstep : ∀ e ∈ d.log, -(e.after.stock start.clock plan : ℤ) -
      -(e.before.stock start.clock plan : ℤ) =
        if (resps e.caller).ok = true then 1 else 0 := by
    intro e he
    obtain ⟨c, hc, b, htext, hb, hserves⟩ := hv.serves hs he
    have hassign := hplan e.caller (hv.entry he).1 c hc htext b hb
    unfold Tables.stock
    cases hserves with
    | usedUp result full codes credentials | unavailable result assign codes credentials =>
      rw [credentials, if_neg (by simp [result.1]), sub_self]
    | granted g result room codes credentials assigns batch createdAt =>
      rw [if_pos result.1, credentials]
      unfold Grant.Assigns at assigns
      unfold Grant.credentialsAfter
      cases hx : g.credential with
      | none =>
        rw [hx] at assigns
        have hfalse : b.assignCredential = false := batch ▸ assigns
        rw [hassign.1] at hfalse
        cases hfalse
      | some x =>
        -- The credential was available at the start, and it is not available any more.
        rw [hx] at assigns
        obtain ⟨-, hrow, havailable⟩ := assigns
        rw [batch, hassign.2, hv.available_eq hsteady (Or.inr ⟨e, he, rfl⟩)
          (Table.mem_of_get? hrow) createdAt] at havailable
        have hcount : ∀ p : Credential → Bool, (e.before.credentials.modify x.id
            (Credential.markUsed g.redemption.id)
            (Credential.key_markUsed g.redemption.id)).count p +
              (if p x then 1 else 0) = e.before.credentials.count p +
                if p (Credential.markUsed g.redemption.id x) then 1 else 0 :=
          fun p => Table.count_modify_get? hrow p
        replace hcount := hcount fun x => x.available start.clock plan
        have hused : (Credential.markUsed g.redemption.id x).available start.clock plan = false :=
          rfl
        rw [if_pos havailable, hused] at hcount
        simp only [Bool.false_eq_true, if_false] at hcount
        dsimp only
        omega
  have haccepted : ∀ i, (resps i).ok = true → (reqs i).Accepted := by
    intro i hok
    by_contra hnot
    rw [(hv.rejected i hnot).2] at hok
    cases hok
  have hsum := hv.history.ledger.sum_change fun T => -(T.stock start.clock plan : ℤ)
  have hcount : _ = ((granted resps).card : ℤ) := hv.sum_entries haccepted hstep
  rw [hcount] at hsum
  omega

omit [Fintype ι] in
/-- When a call finds no credential, then in the end there is none. -/
theorem stock_eq_zero (hv : Served start reqs resps d) {plan : String}
    (hplan : AssignFrom start reqs plan) (hsteady : start.Unexpiring d.clock)
    (hs : PlainRedeems start reqs d.clock) (hfail : ∀ i, d.failed i = false)
    (howner : ∀ l, d.owner l = none) {i : ι} (hacc : (reqs i).Accepted)
    (hnone : (resps i).result = .known .credentialUnavailable) :
    d.tables.stock start.clock plan = 0 := by
  have htables : Past d.log d.tables d.tables := Or.inl rfl
  obtain ⟨e, -, -, hexhausted⟩ := hv.redeemed i hacc
  rcases hexhausted hnone with ⟨j, hj⟩ | ⟨T, c', b', now, hT, hfound, hlo, hhi, htaken⟩
  · rw [hfail j] at hj
    cases hj
  obtain ⟨c, hc, b, htext, -, hb, -⟩ := hs.codes i hacc
  rw [← htext] at hfound
  obtain ⟨-, rfl⟩ := hv.found hc hb hT hfound
  have hplan' := (hplan i hacc c hc htext b' hb).2
  refine Table.count_eq_zero.mpr fun x hx havailable => ?_
  -- The credential was there at the start, and it was available then.
  obtain ⟨x₀, hx₀, hlater⟩ :=
    hv.credentialsKept (x.id + 1) htables x.id x (Nat.lt_succ_self _) (Table.get?_of_mem hx)
  have hunused : x.used = false := by
    unfold Credential.available at havailable
    simp only [Bool.and_eq_true, Bool.not_eq_true'] at havailable
    exact havailable.1.1
  have hunused₀ : x₀.used = false := by
    by_contra hused
    rw [hlater.used (Bool.eq_true_of_not_eq_false hused)] at hunused
    cases hunused
  obtain ⟨⟨used, redemption, hx'⟩, -⟩ := hlater
  have havailable₀ : x₀.available start.clock plan = true := by
    unfold Credential.available at havailable ⊢
    rw [hunused₀]
    rw [hunused, hx'] at havailable
    exact havailable
  have hsame : x₀.available now plan = x₀.available start.clock plan :=
    hsteady.available_eq (Table.mem_of_get? hx₀) ⟨hlo, hhi⟩
  have hid : x₀.id = x.id := by rw [hx']
  rcases htaken x₀ (Table.mem_of_get? hx₀) (by rw [hplan', hsame, havailable₀]) with hused | ⟨w, hw⟩
  · rw [hid] at hused
    rw [hused x (Table.get?_of_mem hx)] at hunused
    cases hunused
  · rw [howner] at hw
    cases hw

/-! ## All calls -/

/-- The calls that have succeeded are those for the codes. -/
theorem card_granted_eq_sum (hv : Served start reqs resps d)
    (hs : PlainRedeems start reqs d.clock) :
    (granted resps).card =
      (start.tables.codes.rows.map fun c => (callsOn reqs c ∩ granted resps).card).sum := by
  classical
  have hnodup : start.tables.codes.rows.Nodup := start.tables.codes.nodup.of_map _
  -- The codes divide the successful calls, since different codes have different texts.
  have hunion : granted resps =
      start.tables.codes.rows.toFinset.biUnion fun c => callsOn reqs c ∩ granted resps := by
    ext i
    constructor
    · intro hi
      have hacc : (reqs i).Accepted := by
        by_contra hnot
        have hok := (Finset.mem_filter.mp hi).2
        rw [(hv.rejected i hnot).2] at hok
        cases hok
      obtain ⟨c, hc, b, htext, -⟩ := hs.codes i hacc
      have hcall : i ∈ callsOn reqs c := Finset.mem_filter.mpr ⟨Finset.mem_univ i, hacc, htext.symm⟩
      exact Finset.mem_biUnion.mpr ⟨c, List.mem_toFinset.mpr hc, Finset.mem_inter.mpr ⟨hcall, hi⟩⟩
    · intro hi
      obtain ⟨c, -, hmem⟩ := Finset.mem_biUnion.mp hi
      exact (Finset.mem_inter.mp hmem).2
  rw [← List.sum_toFinset _ hnodup]
  conv_lhs => rw [hunion]
  refine Finset.card_biUnion fun c hc c' hc' hne => Finset.disjoint_left.mpr fun i hi hi' => hne ?_
  have hcode := (Finset.mem_filter.mp (Finset.mem_inter.mp hi).1).2.2
  have hcode' := (Finset.mem_filter.mp (Finset.mem_inter.mp hi').1).2.2
  exact start.integrity.codeText c (List.mem_toFinset.mp hc) c' (List.mem_toFinset.mp hc')
    (hcode.symm.trans hcode')

/-- A call that passes the validation succeeds, or its code's uses are taken, or all credentials of
its batch's plan. -/
theorem result (hv : Served start reqs resps d) (hs : PlainRedeems start reqs d.clock) {i : ι}
    (hacc : (reqs i).Accepted) :
    (resps i).ok = true ∧ (resps i).result = .known .success ∨
      (resps i).ok = false ∧ (resps i).result = .known .codeUsedUp ∨
        (resps i).ok = false ∧ (resps i).result = .known .credentialUnavailable ∧
          ¬AssignNone start reqs := by
  obtain ⟨c, hc, b, htext, -, hb, -⟩ := hs.codes i hacc
  have hcall : i ∈ callsOn reqs c := Finset.mem_filter.mpr ⟨Finset.mem_univ i, hacc, htext.symm⟩
  obtain ⟨e, -, -, hserves⟩ := hv.serves_call hs hc hb hcall
  cases hserves with
  | usedUp result full codes credentials => exact Or.inr (Or.inl result)
  | granted g result room codes credentials assigns batch createdAt => exact Or.inl result
  | unavailable result assign codes credentials =>
    refine Or.inr (Or.inr ⟨result.1, result.2, fun hnone => ?_⟩)
    rw [hnone i hacc c hc htext b hb] at assign
    cases assign

/-- When no call finds its credentials taken, the calls take all of the capacity. -/
theorem card_granted_of_ne (hv : Served start reqs resps d) (hs : PlainRedeems start reqs d.clock)
    (hall : ∀ i, (reqs i).Accepted → (resps i).result ≠ .known .credentialUnavailable) :
    (∀ c ∈ start.tables.codes, (callsOn reqs c ∩ granted resps).card =
      min (callsOn reqs c).card (start.room c)) ∧
    (granted resps).card = start.capacity reqs := by
  have hcodes : ∀ c ∈ start.tables.codes, (callsOn reqs c ∩ granted resps).card =
      min (callsOn reqs c).card (start.room c) := fun c hc =>
    (hv.card_granted hs hc).2 fun i hi => hall i (Finset.mem_filter.mp hi).2.1
  refine ⟨hcodes, ?_⟩
  rw [hv.card_granted_eq_sum hs, Start.capacity]
  exact congrArg List.sum (List.map_congr_left hcodes)

end Served

/-- In every run in which all calls return and none of their operations fails: if the batches assign
no credentials, then as many calls for each code succeed as it has uses left, or all of them, and
the others find the code used up; and if the batches assign the credentials of one plan, none of
which expires meanwhile, then as many calls succeed as there are credentials, or as would succeed
without them. -/
theorem no_capacity_lost [Fintype ι] {as : List (Action ι Choice)} {s : State ι}
    (hs : PlainRedeems start reqs s.db.clock) (h : start.run as = some s)
    (hret : ∀ i, ∃ r, s.progs i = some (.ret r)) (hfail : ∀ i, s.db.failed i = false) :
    ∃ resps : ι → RedeemResponse, (∀ i, s.progs i = some (.ret (.redeem (.ok (resps i))))) ∧
      (AssignNone start reqs →
        (∀ c ∈ start.tables.codes, (callsOn reqs c ∩ granted resps).card =
          min (callsOn reqs c).card (start.room c)) ∧
        (granted resps).card = start.capacity reqs ∧
        ∀ i, (reqs i).Accepted → (resps i).ok = true ∨ (resps i).result = .known .codeUsedUp) ∧
      ∀ plan, AssignFrom start reqs plan → start.Unexpiring s.db.clock →
        (granted resps).card =
          min (start.tables.stock start.clock plan) (start.capacity reqs) ∧
        ∀ i, (reqs i).Accepted → (resps i).ok = true ∨ (resps i).result = .known .codeUsedUp ∨
          (resps i).result = .known .credentialUnavailable := by
  have hreturned : ∀ i, ∃ resp, s.progs i = some (.ret (.redeem (.ok resp))) ∧ _ := fun i => by
    obtain ⟨r, hr⟩ := hret i
    obtain ⟨resp, rfl, hresp⟩ := hs.returned h hr (hfail i)
    exact ⟨resp, hr, hresp⟩
  choose resps hprogs hresps using hreturned
  -- All calls have returned without a failure, so each accepted one has committed.
  have hv : Served start reqs resps s.db := by
    refine ⟨Start.history h, (Start.inv h).times, fun i hacc => ?_, fun i hnot => ?_⟩
    · rcases hresps i with ⟨-, hred⟩ | ⟨hnot, -⟩
      · exact hred
      · exact absurd hacc hnot
    · rcases hresps i with ⟨hacc, -⟩ | ⟨-, hrejected⟩
      · exact absurd hacc hnot
      · exact hrejected
  have howner : ∀ l, s.db.owner l = none := by
    refine Start.owner_none h (fun i => ?_) fun i => Or.inr ⟨_, hprogs i⟩
    rw [hs.calls]
    trivial
  -- No code gives away more than it has, nor more than it was asked for.
  have hle : (granted resps).card ≤ start.capacity reqs := by
    rw [hv.card_granted_eq_sum hs]
    exact List.sum_le_sum fun c hc => (hv.card_granted hs hc).1
  refine ⟨resps, hprogs, fun hnone => ?_, fun plan hplan hsteady => ?_⟩
  · -- Without credentials a call is refused only if its code is used up.
    have hresult : ∀ i, (reqs i).Accepted →
        (resps i).ok = true ∧ (resps i).result = .known .success ∨
        (resps i).result = .known .codeUsedUp := by
      intro i hacc
      rcases hv.result hs hacc with hok | ⟨-, hused⟩ | ⟨-, -, hnot⟩
      · exact Or.inl hok
      · exact Or.inr hused
      · exact absurd hnone hnot
    obtain ⟨hcodes, hcard⟩ := hv.card_granted_of_ne hs fun i hacc hunavailable => by
      rcases hresult i hacc with ⟨-, hok⟩ | hused
      · rw [hok] at hunavailable
        cases hunavailable
      · rw [hused] at hunavailable
        cases hunavailable
    exact ⟨hcodes, hcard, fun i hacc => (hresult i hacc).imp_left And.left⟩
  · -- With credentials either the uses or the stock is at its end.
    have hstock := hv.stock_eq hs hplan hsteady
    refine ⟨?_, fun i hacc => ?_⟩
    · rcases Classical.em (∀ i, (reqs i).Accepted →
        (resps i).result ≠ .known .credentialUnavailable) with hall | hsome
      · have hcard := (hv.card_granted_of_ne hs hall).2
        omega
      · -- The credentials are all taken, by calls that have succeeded.
        push Not at hsome
        obtain ⟨i, hacc, hunavailable⟩ := hsome
        have hzero := hv.stock_eq_zero hplan hsteady hs hfail howner hacc hunavailable
        omega
    · rcases hv.result hs hacc with ⟨hok, -⟩ | ⟨-, hused⟩ | ⟨-, hunavailable, -⟩
      · exact Or.inl hok
      · exact Or.inr (Or.inl hused)
      · exact Or.inr (Or.inr hunavailable)

/-- Two calls of different users for one code, of which only one use is left. -/
def raceRequests : Bool → RedeemRequest
  | false => ⟨"u", "aaaa", "", ""⟩
  | true => ⟨"v", "AAAA", "", ""⟩

/-- They run on the tables with one code and one credential. -/
def redeemRace : Start Bool :=
  Start.of (fun i => .redeem (raceRequests i)) rewardTables ⟨2, 2, 2, 1, 1⟩ rewardTables_below
    checkIntegrity_rewardTables

/-- The second call reads the code before the first one takes its use. -/
def redeemRaceRun : List (Action Bool Choice) :=
  let c : Choice := ⟨1, String.ofList (List.replicate 32 'a'), .unsent⟩
  [.exec false c, .exec true c, .exec true c] ++ List.replicate 12 (.exec false c) ++
    List.replicate 5 (.exec true c)

/-- Those calls are redemptions without keys of a code that does not expire. -/
theorem redeemRace_plain (last : Time) : PlainRedeems redeemRace raceRequests last where
  calls _ := rfl
  keys := by decide
  codes i _ := by
    refine ⟨⟨1, 1, "AAAA", .unused, 0⟩, List.mem_singleton_self _, rewardBatch, ?_, rfl, rfl, rfl,
      ?_⟩
    · cases i <;> decide +kernel
    · intro t ht
      cases ht

/-- One of the two calls succeeds, although the other one has begun before it commits. -/
theorem no_capacity_lost_race : ∃ s resps, redeemRace.run redeemRaceRun = some s ∧
    (∀ i, s.progs i = some (.ret (.redeem (.ok (resps i))))) ∧
    (granted resps).card = min (redeemRace.tables.stock redeemRace.clock "plus")
      (redeemRace.capacity raceRequests) ∧
    min (redeemRace.tables.stock redeemRace.clock "plus") (redeemRace.capacity raceRequests) =
      1 := by
  have hreturned : ∀ i, (redeemRace.result? redeemRaceRun i).isSome = true := by decide +kernel
  have hfail : ∀ i, ((redeemRace.run redeemRaceRun).map fun s => s.db.failed i) = some false := by
    decide +kernel
  obtain ⟨r₀, hr₀⟩ := Option.isSome_iff_exists.mp (hreturned false)
  obtain ⟨s, hs, -⟩ := Start.result?_eq_some hr₀
  have hret : ∀ i, ∃ r, s.progs i = some (.ret r) := by
    intro i
    obtain ⟨r, hr⟩ := Option.isSome_iff_exists.mp (hreturned i)
    obtain ⟨s', hs', hp⟩ := Start.result?_eq_some hr
    obtain rfl := Option.some.inj (hs.symm.trans hs')
    exact ⟨r, hp⟩
  have hfail' : ∀ i, s.db.failed i = false := by
    intro i
    have h := hfail i
    rw [hs] at h
    exact Option.some.inj h
  obtain ⟨resps, hresps, -, hplan⟩ := no_capacity_lost (redeemRace_plain _) hs hret hfail'
  have hassign : AssignFrom redeemRace raceRequests "plus" := by
    intro i _ c hc _ b hb
    obtain rfl := List.mem_singleton.mp hc
    obtain rfl : rewardBatch = b := Option.some.inj hb
    exact ⟨rfl, rfl⟩
  have hsteady : redeemRace.Unexpiring s.db.clock := by
    intro x hx t ht
    obtain rfl := List.mem_singleton.mp hx
    cases ht
  exact ⟨s, resps, hs, hresps, (hplan "plus" hassign hsteady).1, by decide +kernel⟩

end CdkSystem
