import CdkSystem.Proof.Reporting
import CdkSystem.Theorems.Credentials
import CdkSystem.Theorems.RequestHashes

/-!
# Idempotency of single redemptions

In a run of single redemptions a key's row always has its response, which is the one of the only
call that has committed with the key (`SingleRedeems.origin`). Hence a redemption finds its key new
(`SingleRedeems.fresh`), and every other call with the key that is answered gets that response or a
conflict (`SingleRedeems.answered`).

A call with a key waits for another transaction that has inserted the row of the key and is not
finished, and then sees the row with its response or no row at all. So nobody else ever sees the row
of a key without a response. A call for other users or codes has another hash, under the assumption
on the hash function, and is answered with a conflict; it changes nothing whether it gets that far
or not. A call with an invalid input is answered before its key is looked at, which
`single_redeem_unchecked` shows to be possible.
-/

namespace CdkSystem

open RowLock Relational

/-- The requests are for the same user and the same code. -/
def RedeemRequest.Same (a b : RedeemRequest) : Prop :=
  trimSpace a.userID = trimSpace b.userID ∧ normalizeCode a.code = normalizeCode b.code

instance (a b : RedeemRequest) : Decidable (a.Same b) :=
  inferInstanceAs (Decidable (_ ∧ _))

/-- Single requests are hashed from the same bytes exactly if they are the same. -/
theorem RedeemRequest.hashed_eq_iff {a b : RedeemRequest} :
    a.trimmed.hashed = b.trimmed.hashed ↔ a.Same b := by
  have hiff : a.trimmed.hashed = b.trimmed.hashed ↔ _ :=
    KeyedRequest.hashed_eq_iff (a := .single a) (b := .single b)
  have hforges : ∀ a b : RedeemRequest, ¬ (KeyedRequest.single a).Forges (.single b) := by
    rintro a b ⟨spelled, hcodes, -, hne⟩
    have hlength := congrArg List.length hcodes
    simp only [KeyedRequest.codes, List.length_append, List.length_singleton] at hlength
    have hnil : spelled = [] := List.length_eq_zero_iff.mp (by omega)
    exact hne.elim (fun h => h hnil) fun h => h rfl
  have hsame : (KeyedRequest.single a).Same (.single b) ↔ a.Same b := by
    simp [KeyedRequest.Same, KeyedRequest.isBatch, KeyedRequest.user, KeyedRequest.codes, Same]
  rw [← hsame]
  simpa [hforges a b, hforges b a] using hiff

/-- The request passes the validation, so it is not answered before any transaction. -/
def RedeemRequest.Accepted (req : RedeemRequest) : Prop :=
  checkInput req.trimmed (normalizeCode req.code) = none

instance (req : RedeemRequest) : Decidable req.Accepted :=
  decidable_of_iff (checkInput req.trimmed (normalizeCode req.code)).isNone
    Option.isNone_iff_eq_none

/-- The validation is the same for the same requests with the same key. -/
theorem RedeemRequest.Same.accepted {a b : RedeemRequest} (h : a.Same b)
    (hkey : a.idempotencyKey = b.idempotencyKey) (hb : b.Accepted) : a.Accepted := by
  obtain ⟨huser, hcode⟩ := h
  unfold Accepted checkInput at hb ⊢
  simp only [RedeemRequest.trimmed, huser, hcode, hkey] at hb ⊢
  exact hb

/-- At most one use of one code and one credential are consumed. -/
structure ConsumesOne (T T' : Tables) : Prop where
  codes : T'.codes = T.codes ∨
    ∃ id, T'.codes = T.codes.modify id Code.incrementUseCount Code.key_incrementUseCount
  credentials : T'.credentials = T.credentials ∨ ∃ id r, T'.credentials =
    T.credentials.modify id (Credential.markUsed r) (Credential.key_markUsed r)

variable {ι : Type} {start : Start ι} {reqs : ι → RedeemRequest} {log : List (Commit ι Tables)}
  {e : Commit ι Tables} {T : Tables} {K : String} {req : RedeemRequest} {resp : RedeemResponse}
  {clock : Time} {past : Tables → Prop} {rt : Runtime}

/-- All calls are single redemptions, no key has been used at the start, and the hash function tells
the requests apart that are hashed from different bytes. -/
structure SingleRedeems (start : Start ι) (reqs : ι → RedeemRequest) : Prop where
  calls : ∀ i, start.calls i = .redeem (reqs i)
  keys : start.tables.keys = ∅
  sha256 : ∀ i j, start.rt.sha256 (reqs i).trimmed.hashed =
    start.rt.sha256 (reqs j).trimmed.hashed →
    (reqs i).trimmed.hashed = (reqs j).trimmed.hashed

/-- The keys after a redemption: its own has a row with its response, and the others are as before.
-/
theorem Redeemed.keys (h : Redeemed rt clock past req e resp) :
    e.after.keys = keyed e.before.keys req.idempotencyKey (hashRequest rt req) resp.marshal := by
  cases h with
  | refused reason known new hcreated free after => rw [after, tables_refused]
  | succeeded inOrder response free after => rw [after, tables_succeeded]

/-- The new row of a redemption, which has its key. -/
theorem Redeemed.redemptions (h : Redeemed rt clock past req e resp) : ∃ r,
    e.after.redemptions = e.before.redemptions.insert r ∧
      r.idempotencyKey = stringPtr req.idempotencyKey := by
  cases h with
  | refused reason known new hcreated free after => exact ⟨_, by rw [after, tables_refused], rfl⟩
  | @succeeded g redeemedAt resp inOrder response free after =>
    exact ⟨g.redemption, by rw [after, tables_succeeded], by rw [inOrder.row]; rfl⟩

/-- A redemption consumes at most one use of one code and one credential. -/
theorem Redeemed.consumesOne (h : Redeemed rt clock past req e resp) :
    ConsumesOne e.before e.after := by
  cases h with
  | refused reason known new hcreated free after =>
    rw [after, tables_refused]
    exact ⟨Or.inl rfl, Or.inl rfl⟩
  | @succeeded g redeemedAt resp inOrder response free after =>
    rw [after, tables_succeeded]
    refine ⟨Or.inr ⟨g.code.id, rfl⟩, ?_⟩
    cases hx : g.credential with
    | none => exact Or.inl (by rw [Grant.credentialsAfter, hx])
    | some x => exact Or.inr ⟨x.id, g.redemption.id, by rw [Grant.credentialsAfter, hx]⟩

variable [DecidableEq ι]

/-- A commit of such a run is a redemption of its caller's request, or it changes nothing. -/
theorem SingleRedeems.step (hs : SingleRedeems start reqs)
    (h : Transition start log e (start.calls e.caller)) : e.after = e.before ∨ ∃ resp,
      Redeemed start.rt start.clock (Past log e.before) (reqs e.caller).trimmed e resp := by
  rw [hs.calls] at h
  cases h with
  | idle after => exact Or.inl after
  | redeem h => exact Or.inr ⟨_, h⟩
  | deleted ids hdelete after =>
    have hids : ids = [] := List.eq_nil_iff_forall_not_mem.mpr fun id hid => hdelete id hid
    rw [hids] at after
    exact Or.inl after

/-- A commit with the key `K` and the response `resp`. -/
structure CommitsKey (start : Start ι) (reqs : ι → RedeemRequest) (log : List (Commit ι Tables))
    (K : String) (e : Commit ι Tables) (resp : RedeemResponse) : Prop where
  mem : e ∈ log
  key : (reqs e.caller).idempotencyKey = K
  redeemed : ∃ past, Redeemed start.rt start.clock past (reqs e.caller).trimmed e resp

/-- The row of a key is the one that a commit with the key has left. -/
theorem SingleRedeems.origin (hs : SingleRedeems start reqs) (h : History start log T)
    {row : IdempotencyKey} (hrow : T.keys.get? K = some row) : ∃ e resp,
      CommitsKey start reqs log K e resp ∧
        row = ⟨K, hashRequest start.rt (reqs e.caller).trimmed, some resp.marshal⟩ := by
  induction h with
  | start =>
    rw [hs.keys] at hrow
    cases hrow
  | @commit log e h time he ih =>
    have hold : e.before.keys.get? K = some row → ∃ e' resp,
        CommitsKey start reqs (log ++ [e]) K e' resp ∧
          row = ⟨K, hashRequest start.rt (reqs e'.caller).trimmed, some resp.marshal⟩ := by
      intro hold
      obtain ⟨e', resp, ⟨hmem, hkey, hr⟩, hrow'⟩ := ih hold
      exact ⟨e', resp, ⟨List.mem_append_left _ hmem, hkey, hr⟩, hrow'⟩
    rcases hs.step he with hidle | ⟨resp, hr⟩
    · rw [hidle] at hrow
      exact hold hrow
    · rw [hr.keys] at hrow
      by_cases hK : (reqs e.caller).trimmed.idempotencyKey = "" ∨
          K ≠ (reqs e.caller).trimmed.idempotencyKey
      · rw [get?_keyed_of_ne hK] at hrow
        exact hold hrow
      · rw [not_or, not_not] at hK
        obtain ⟨hne, rfl⟩ := hK
        rw [get?_keyed_self hne hr.free, Option.some.injEq] at hrow
        exact ⟨e, resp, ⟨by simp, rfl, _, hr⟩, hrow.symm⟩

/-- A redemption that commits has found its key new. -/
theorem SingleRedeems.fresh (hs : SingleRedeems start reqs) (h : History start log e.before)
    (he : Redeemed start.rt clock past req e resp) (hkey : req.idempotencyKey ≠ "") :
    e.before.keys.get? req.idempotencyKey = none := by
  by_contra hne
  obtain ⟨row, hrow⟩ := Option.ne_none_iff_exists'.mp hne
  obtain ⟨e', resp', -, rfl⟩ := hs.origin h hrow
  have hnone := (he.free hkey _ hrow).2
  cases hnone

/-- At most one redemption has a key. -/
theorem SingleRedeems.redemption_unique (hs : SingleRedeems start reqs) (h : History start log T)
    {r r' : Redemption} (hr : r ∈ T.redemptions) (hr' : r' ∈ T.redemptions)
    (hk : r.idempotencyKey = some K) (hk' : r'.idempotencyKey = some K) : r = r' := by
  induction h generalizing r r' with
  | start =>
    obtain ⟨row, hrow⟩ := start.integrity.redemptionKey r hr K hk
    rw [hs.keys] at hrow
    cases hrow
  | @commit log e h time he ih =>
    rcases hs.step he with hidle | ⟨resp, hred⟩
    · rw [hidle] at hr hr'
      exact ih hr hr' hk hk'
    · -- The new row has a key that no row had before.
      obtain ⟨x, hx, hxkey⟩ := hred.redemptions
      have hnew : ∀ r₀ ∈ e.before.redemptions, r₀.idempotencyKey = some K →
          x.idempotencyKey ≠ some K := by
        intro r₀ hr₀ hk₀ hxK
        obtain ⟨row, hrow⟩ := (h.integrity (Or.inl rfl)).redemptionKey r₀ hr₀ K hk₀
        rw [hxkey, stringPtr_eq_some] at hxK
        obtain ⟨rfl, hne⟩ := hxK
        rw [hs.fresh h hred hne] at hrow
        cases hrow
      rw [hx] at hr hr'
      rcases Table.mem_or_eq_of_mem_insert hr with hold | rfl <;>
        rcases Table.mem_or_eq_of_mem_insert hr' with hold' | rfl
      · exact ih hold hold' hk hk'
      · exact absurd hk' (hnew r hold hk)
      · exact absurd hk (hnew r' hold' hk')
      · rfl

/-- A commit with a key leaves its response in the key's row for good. -/
theorem CommitsKey.row (h : History start log T)
    (hc : CommitsKey start reqs log K e resp) (hK : K ≠ "") :
    T.keys.get? K = some ⟨K, hashRequest start.rt (reqs e.caller).trimmed, some resp.marshal⟩ := by
  obtain ⟨hmem, rfl, past, hr⟩ := hc
  exact h.keyed_row hmem hK hr.free hr.keys

/-- Of the commits with a key only one changes anything. -/
theorem SingleRedeems.commits_once (hs : SingleRedeems start reqs) (h : History start log T)
    (hK : K ≠ "") : log.Pairwise fun e e' => (reqs e.caller).idempotencyKey = K →
      (reqs e'.caller).idempotencyKey = K → e.after = e.before ∨ e'.after = e'.before := by
  induction h with
  | start => exact List.Pairwise.nil
  | @commit log e' h time he' ih =>
    refine List.pairwise_append.mpr ⟨ih, List.pairwise_singleton _ _, fun e he e'' he'' => ?_⟩
    obtain rfl := List.mem_singleton.mp he''
    rintro hk rfl
    obtain ⟨log₀, hprefix, h₀, htrans⟩ := h.transition he
    rcases hs.step htrans with hidle | ⟨resp, hr⟩
    · exact Or.inl hidle
    rcases hs.step he' with hidle | ⟨resp', hr'⟩
    · exact Or.inr hidle
    have hrow := CommitsKey.row h ⟨he, hk, _, hr⟩ hK
    have hnone := hs.fresh h hr' hK
    rw [show (reqs e''.caller).trimmed.idempotencyKey = (reqs e''.caller).idempotencyKey from rfl,
      hrow] at hnone
    cases hnone

/-- A call whose input is not accepted has returned from the start, so it commits nothing. -/
theorem SingleRedeems.accepted (hs : SingleRedeems start reqs) {as : List (Action ι Choice)}
    {s : State ι} (h : start.run as = some s) :
    (∀ e ∈ s.db.log, (reqs e.caller).Accepted) ∧
      ∀ i p, ¬ (reqs i).Accepted → s.progs i = some p → ∃ r, p = .ret r := by
  induction as using List.reverseRecOn generalizing s with
  | nil =>
    obtain rfl : start.state = s := Option.some.inj h
    refine ⟨fun e he => absurd he List.not_mem_nil, fun i p hi hp => ?_⟩
    obtain ⟨resp, hresp⟩ := Option.ne_none_iff_exists'.mp hi
    simp only [Start.state, hs.calls, callProgram, redeem, hresp, Option.some.injEq] at hp
    exact ⟨_, hp.symm⟩
  | append_singleton as act ih =>
    rw [Start.run, Sys.run_snoc, Option.bind_eq_some_iff] at h
    obtain ⟨s₁, hs₁, hstep⟩ := h
    obtain ⟨hlog, hprogs⟩ := ih hs₁
    rcases Sys.step_cases hstep with ⟨i, o, k, a, d, hp, ha, rfl⟩ | ⟨i, p, -, hp, rfl⟩ | ⟨n, -, rfl⟩
    · -- Only a call that has not returned makes a step.
      have hi : (reqs i).Accepted := by
        by_contra hi
        obtain ⟨r, hr⟩ := hprogs i _ hi hp
        cases hr
      refine ⟨?_, fun j p hj hp' => ?_⟩
      · rcases Start.op_effect hs₁ hp ha.opStep with ⟨-, hsame⟩ | ⟨e, rfl, -, -, hsame, -⟩
        · exact fun e he => hlog e (hsame ▸ he)
        · intro e' he'
          change e' ∈ d.log at he'
          rw [hsame] at he'
          rcases List.mem_append.mp he' with he' | he'
          · exact hlog e' he'
          · rw [List.mem_singleton.mp he']
            exact hi
      · have hij : j ≠ i := fun hji => hj (hji ▸ hi)
        simp only [Sys.resume, Function.update_of_ne hij] at hp'
        exact hprogs j p hj hp'
    · refine ⟨hlog, fun j p hj hp' => ?_⟩
      by_cases hij : j = i
      · subst hij
        simp [Sys.resume] at hp'
      · simp only [Sys.resume, Function.update_of_ne hij] at hp'
        exact hprogs j p hj hp'
    · exact ⟨hlog, hprogs⟩

/-- What is in the JSON of a response is in it as it is. -/
theorem RedeemResponse.visible_of_marshal {r r' : RedeemResponse} (h : r.marshal = r'.marshal) :
    r.visible = r'.visible := by
  have := congrArg RedeemResponse.unmarshal h
  rwa [RedeemResponse.unmarshal_marshal, RedeemResponse.unmarshal_marshal,
    Option.some.injEq] at this

/-- An accepted call with a key that has returned a response comes after a commit with the key. -/
theorem SingleRedeems.committed (hs : SingleRedeems start reqs) {as : List (Action ι Choice)}
    {s : State ι} (h : start.run as = some s) {i : ι} (hinput : (reqs i).Accepted)
    (hkey : (reqs i).idempotencyKey = K)
    (hret : s.progs i = some (.ret (.redeem (.ok resp)))) :
    ∃ e resp', CommitsKey start reqs s.db.log K e resp' := by
  obtain ⟨r', hr', houtcome⟩ := Start.redeem_returned h (hs.calls i) hret
  obtain rfl : .ok resp = r' := by injection hr'
  cases houtcome with
  | invalid hinvalid =>
    rw [hinput] at hinvalid
    cases hinvalid
  | answered _ ha hq =>
    rw [hkey] at ha
    cases ha with
    | replayed _ hrow' heq hbody hresp =>
      obtain ⟨e, resp', hc, -⟩ := hs.origin (Start.history h) hrow'
      exact ⟨e, resp', hc⟩
  | @redeemed e' resp' _ he' hlog hfailed hfull =>
    have hown : e' ∈ s.db.ownLog i := by
      rw [hlog]
      simp
    obtain ⟨hmem, hcaller⟩ := List.mem_filter.mp hown
    obtain rfl : e'.caller = i := of_decide_eq_true hcaller
    exact ⟨e', resp, hmem, hkey, _, he'⟩

/-- A call with a used key that has returned: if the request is the same and passes the validation,
it has the committed response; if the request is another one, it has changed nothing, and if it
passes the validation, it has a conflict, unless an operation has failed. -/
theorem SingleRedeems.answered (hs : SingleRedeems start reqs) {as : List (Action ι Choice)}
    {s : State ι} (h : start.run as = some s) {i : ι} {r : Except GoError RedeemResponse}
    (hkey : (reqs i).idempotencyKey = K) (hK : K ≠ "") (hret : s.progs i = some (.ret (.redeem r)))
    (hc : CommitsKey start reqs s.db.log K e resp) :
    ((reqs i).Same (reqs e.caller) → (reqs i).Accepted →
      ∀ resp', r = .ok resp' → resp'.visible = resp.visible) ∧
      (¬ (reqs i).Same (reqs e.caller) → s.db.ownLog i = [] ∧
        ((reqs i).Accepted → s.db.failed i = true ∨ r = .error .idempotencyConflict)) := by
  have hh := Start.history h
  have hrow := hc.row hh hK
  have hsame : hashRequest start.rt (reqs i).trimmed =
      hashRequest start.rt (reqs e.caller).trimmed →
      (reqs i).Same (reqs e.caller) := fun heq => RedeemRequest.hashed_eq_iff.mp (hs.sha256 _ _ heq)
  have hhash : (reqs i).Same (reqs e.caller) →
      hashRequest start.rt (reqs i).trimmed = hashRequest start.rt (reqs e.caller).trimmed :=
    fun heq => congrArg start.rt.sha256 (RedeemRequest.hashed_eq_iff.mpr heq)
  obtain ⟨r', hr', houtcome⟩ := Start.redeem_returned h (hs.calls i) hret
  obtain rfl : r = r' := by injection hr'
  have hstart : start.state.db.ownLog i = [] := rfl
  cases houtcome with
  | invalid hinvalid hq =>
    -- It has returned before its transaction, so it has changed nothing.
    have hnot : ¬ (reqs i).Accepted := fun hinput => by
      rw [hinput] at hinvalid
      cases hinvalid
    exact ⟨fun _ hinput => absurd hinput hnot,
      fun _ => ⟨hq.log.trans hstart, fun hinput => absurd hinput hnot⟩⟩
  | answered _ ha hq =>
    rw [hkey] at ha
    have hlog := hq.log.trans hstart
    cases ha with
    | @replayed row body resp' _ hrow' heq hbody hresp =>
      rw [hrow, Option.some.injEq] at hrow'
      subst hrow'
      obtain rfl := Option.some.inj hbody
      rw [RedeemResponse.unmarshal_marshal, Option.some.injEq] at hresp
      refine ⟨fun _ _ resp'' hok => ?_, fun hne => absurd (hsame heq.symm) hne⟩
      obtain rfl := Except.ok.inj hok
      rw [← hresp]
      rfl
    | @conflict row _ hrow' hne =>
      rw [hrow, Option.some.injEq] at hrow'
      subst hrow'
      exact ⟨fun heq => absurd (hhash heq).symm hne, fun _ => ⟨hlog, fun _ => Or.inr rfl⟩⟩
    | @undecodable row body err _ hrow' _ hbody hnone =>
      rw [hrow, Option.some.injEq] at hrow'
      subst hrow'
      obtain rfl := Option.some.inj hbody
      rw [RedeemResponse.unmarshal_marshal] at hnone
      cases hnone
  | @redeemed e' resp' _ he' hlog hfailed hfull =>
    -- The call itself has committed with the key.
    have hown : e' ∈ s.db.ownLog i := by
      rw [hlog]
      simp
    obtain ⟨hmem, hcaller⟩ := List.mem_filter.mp hown
    obtain rfl : e'.caller = i := of_decide_eq_true hcaller
    have hrow' := CommitsKey.row hh ⟨hmem, hkey, _, he'⟩ hK
    rw [hrow, Option.some.injEq, IdempotencyKey.mk.injEq, Option.some.injEq] at hrow'
    obtain ⟨-, heq, hbody⟩ := hrow'
    refine ⟨fun _ _ resp'' hok => ?_, fun hne => absurd (hsame heq.symm) hne⟩
    obtain rfl := Except.ok.inj hok
    exact (RedeemResponse.visible_of_marshal hbody).symm
  | failed hf =>
    refine ⟨fun _ _ _ hok => ?_, fun _ => ⟨hf.log.trans hstart, fun _ => Or.inl hf.failed⟩⟩
    cases hok

/-- In every run of single redemptions, with any of them failing or dying at any operation, and for
every key: at most one redemption has the key, every key's row has its response, and of the calls
with the key at most one changes anything, by at most one use of a code and one credential. A call
for the same user and code as the one that has committed the key returns nothing but the same
response; a call for others changes nothing, and if it passes the validation, it has a conflict,
unless a database operation has failed. -/
theorem single_redeem_idempotent (hs : SingleRedeems start reqs) {as : List (Action ι Choice)}
    {s : State ι} (h : start.run as = some s) (hK : K ≠ "") :
    (∀ r ∈ s.db.tables.redemptions, ∀ r' ∈ s.db.tables.redemptions, r.idempotencyKey = some K →
      r'.idempotencyKey = some K → r = r') ∧
    (∀ row ∈ s.db.tables.keys, row.responseBody.isSome = true) ∧
    ((s.db.log.Pairwise fun e e' => (reqs e.caller).idempotencyKey = K →
        (reqs e'.caller).idempotencyKey = K → e.after = e.before ∨ e'.after = e'.before) ∧
      ∀ e ∈ s.db.log, ConsumesOne e.before e.after) ∧
    ∀ i r, (reqs i).idempotencyKey = K → s.progs i = some (.ret (.redeem r)) →
      ((reqs i).Accepted → ∀ resp, r = .ok resp →
        ∃ e resp', CommitsKey start reqs s.db.log K e resp') ∧
      ∀ e resp, CommitsKey start reqs s.db.log K e resp →
        ((reqs i).Same (reqs e.caller) → ∀ resp', r = .ok resp' → resp'.visible = resp.visible) ∧
        (¬ (reqs i).Same (reqs e.caller) → s.db.ownLog i = [] ∧
          ((reqs i).Accepted → s.db.failed i = true ∨ r = .error .idempotencyConflict)) := by
  have hh := Start.history h
  refine ⟨fun r hr r' hr' hk hk' => hs.redemption_unique hh hr hr' hk hk', fun row hrow => ?_,
    ⟨hs.commits_once hh hK, fun e he => ?_⟩, fun i r hkey hret => ⟨fun hinput resp hok => ?_,
      fun e resp hc => ⟨fun hsame => ?_, fun hother => ?_⟩⟩⟩
  · obtain ⟨e, resp, -, hrow'⟩ := hs.origin hh (Table.get?_of_mem hrow)
    rw [hrow']
    rfl
  · obtain ⟨log, -, hbefore, htrans⟩ := hh.transition he
    -- A transaction of this system changes nothing or is the one of a single redemption.
    rcases hs.step htrans with hidle | ⟨resp, hr⟩
    · exact ⟨Or.inl (by rw [hidle]), Or.inl (by rw [hidle])⟩
    · exact hr.consumesOne
  · exact hs.committed h hinput hkey (hok ▸ hret)
  · have hinput := hsame.accepted (hkey.trans hc.key.symm) ((hs.accepted h).1 e hc.mem)
    exact (hs.answered h hkey hK hret hc).1 hsame hinput
  · exact (hs.answered h hkey hK hret hc).2 hother

/-- Two calls for the same user and code with one key. -/
def twiceRequests : Bool → RedeemRequest
  | false => ⟨"u", "aaaa", "k", ""⟩
  | true => ⟨" u", "AAAA ", "k", ""⟩

/-- The two calls run on the tables with one code and one credential. -/
def redeemTwice : Start Bool :=
  Start.of (fun i => .redeem (twiceRequests i)) rewardTables ⟨2, 2, 2, 1, 1⟩ rewardTables_below
    checkIntegrity_rewardTables

/-- The first call runs to its end. -/
def redeemFirstRun : List (Action Bool Choice) :=
  List.replicate 15 (.exec false ⟨1, String.ofList (List.replicate 32 'a'), .unsent⟩)

/-- The calls run one after the other. -/
def redeemTwiceRun : List (Action Bool Choice) :=
  redeemFirstRun ++ List.replicate 4 (.exec true ⟨1, "", .unsent⟩)

/-- A run of those calls is one of single redemptions. -/
theorem redeemTwice_single : SingleRedeems redeemTwice twiceRequests :=
  ⟨fun _ => rfl, rfl, fun _ _ h => h⟩

/-- The second call returns the response of the first one. -/
theorem single_redeem_idempotent_twice : ∃ s resp resp', redeemTwice.run redeemTwiceRun = some s ∧
    s.progs true = some (.ret (.redeem (.ok resp'))) ∧
    (∃ e, CommitsKey redeemTwice twiceRequests s.db.log "k" e resp) ∧
      resp'.visible = resp.visible := by
  have hsome : ((redeemTwice.result? redeemTwiceRun true).bind Result.response?).isSome := by
    decide +kernel
  obtain ⟨resp', hresp⟩ := Option.isSome_iff_exists.mp hsome
  obtain ⟨r, hr, hresp⟩ := Option.bind_eq_some_iff.mp hresp
  obtain ⟨s, hs, hp⟩ := Start.result?_eq_some hr
  rw [Result.response?_eq_some hresp] at hp
  have hall := (single_redeem_idempotent redeemTwice_single hs (K := "k") (by decide)).2.2.2 true
    (.ok resp') rfl hp
  obtain ⟨e, resp, hc⟩ := hall.1 (by decide) resp' rfl
  have hsame : ∀ i, (twiceRequests true).Same (twiceRequests i) := by decide
  exact ⟨s, resp, resp', hs, hp, ⟨e, hc⟩, (hall.2 e resp hc).1 (hsame e.caller) resp' rfl⟩

/-- The second call is for nobody: its user is an empty text. -/
def nobodyRequests : Bool → RedeemRequest
  | false => ⟨"u", "aaaa", "k", ""⟩
  | true => ⟨"", "AAAA", "k", ""⟩

/-- It runs on the same tables as the calls before. -/
def redeemNobody : Start Bool :=
  Start.of (fun i => .redeem (nobodyRequests i)) rewardTables ⟨2, 2, 2, 1, 1⟩ rewardTables_below
    checkIntegrity_rewardTables

/-- A call that has returned at the start stays so unless it dies. -/
theorem Start.returned_stays {start : Start ι} {as : List (Action ι Choice)} {s : State ι} {i : ι}
    {r : Result} (h0 : start.state.progs i = some (.ret r)) (hcrash : ∀ act ∈ as, act ≠ .crash i)
    (h : start.run as = some s) : s.progs i = some (.ret r) := by
  induction as using List.reverseRecOn generalizing s with
  | nil =>
    obtain rfl : start.state = s := Option.some.inj h
    exact h0
  | append_singleton as act ih =>
    rw [Start.run, Sys.run_snoc, Option.bind_eq_some_iff] at h
    obtain ⟨s₁, hs₁, hstep⟩ := h
    have hret := ih (fun act hact => hcrash act (List.mem_append_left _ hact)) hs₁
    rcases Sys.step_cases hstep with ⟨j, o, k, a, d, hp, ha, rfl⟩ | ⟨j, p, hact, hp, rfl⟩ |
      ⟨n, -, rfl⟩
    · have hij : i ≠ j := by
        rintro rfl
        rw [hret] at hp
        cases hp
      simpa only [Sys.resume, Function.update_of_ne hij] using hret
    · have hij : i ≠ j := by
        rintro rfl
        exact hcrash act (by simp) hact
      simpa only [Sys.resume, Function.update_of_ne hij] using hret
    · exact hret

/-- A call without a user that begins after its key was committed for another request has no
conflict: it does not pass the validation. -/
theorem single_redeem_unchecked :
    ¬ ∀ (start : Start Bool) (reqs : Bool → RedeemRequest) (as bs : List (Action Bool Choice))
      (s s' : State Bool) (i : Bool) (r : Except GoError RedeemResponse) (e : Commit Bool Tables)
      (resp : RedeemResponse) (K : String), SingleRedeems start reqs → K ≠ "" →
      start.run as = some s → CommitsKey start reqs s.db.log K e resp →
      s.progs i = start.state.progs i → start.run (as ++ bs) = some s' →
      (reqs i).idempotencyKey = K → ¬ (reqs i).Same (reqs e.caller) →
      s'.progs i = some (.ret (.redeem r)) → s'.db.failed i = false →
      r = .error .idempotencyConflict := by
  intro h
  -- The first call answers with a response, so it has committed the key.
  have hsome : ((redeemNobody.result? redeemFirstRun false).bind Result.response?).isSome := by
    decide +kernel
  obtain ⟨resp, hresp⟩ := Option.isSome_iff_exists.mp hsome
  obtain ⟨r, hr, hresp⟩ := Option.bind_eq_some_iff.mp hresp
  obtain ⟨s, hs, hp⟩ := Start.result?_eq_some hr
  rw [Result.response?_eq_some hresp] at hp
  have hsingle : SingleRedeems redeemNobody nobodyRequests :=
    ⟨fun _ => rfl, rfl, fun _ _ h => h⟩
  obtain ⟨e, resp', hc⟩ := hsingle.committed hs (i := false) (by decide) rfl hp
  -- Only the first call passes the validation, so it is the one that committed.
  have hcaller : e.caller = false := by
    by_contra hne
    have htrue : e.caller = true := by simpa using hne
    have hnot := (hsingle.accepted hs).1 e hc.mem
    rw [htrue] at hnot
    exact absurd hnot (by decide)
  have hfailed : (redeemNobody.run redeemFirstRun).map (fun s => s.db.failed true) =
      some false := by decide +kernel
  rw [hs] at hfailed
  have hret : redeemNobody.state.progs true = some (.ret (.redeem (.ok
      (failure .invalidInput "请输入邮箱和兑换码")))) := rfl
  have hcrash : ∀ act ∈ redeemFirstRun, act ≠ .crash true := by
    intro act hact hcrash
    rw [List.eq_of_mem_replicate hact] at hcrash
    cases hcrash
  have hstays := Start.returned_stays hret hcrash hs
  have hconflict := h redeemNobody nobodyRequests redeemFirstRun [] s s true _ e resp' "k"
    hsingle (by decide) hs hc (hstays.trans hret.symm)
    ((congrArg redeemNobody.run (List.append_nil _)).trans hs) rfl
    (by rw [hcaller]; decide) hstays (Option.some.inj hfailed)
  cases hconflict

end CdkSystem
