import CdkSystem.Theorems.BatchRefinement
import CdkSystem.Theorems.SingleIdempotency

/-!
# Idempotency of batch redemptions

A key that only batch requests carry gets its response from one attempt, which stores it
(`Transition.stores`, `StoresBatch.unique`). The row of the key is the one of that attempt for good
(`StoresBatch.row`), so the other requests with the key that are answered get its response or a
conflict (`batch_redeem_idempotent`).

The outer transaction of a batch stores its response in the row that it has inserted, while the
redemptions of the codes commit on their own. So a key can be without a row although codes were
redeemed, but never the other way round: a row with a response tells what was redeemed, since the
tally of the loop is part of what the commit asserts. The run at the end sends the same batch twice
and gets the response of the first one again.
-/

namespace CdkSystem

open RowLock Relational

/-- What is in the JSON of a response is in it as it is. -/
theorem BatchRedeemResponse.visible_of_marshal {r r' : BatchRedeemResponse}
    (h : r.marshal = r'.marshal) : r.visible = r'.visible := by
  have hvisible := congrArg BatchRedeemResponse.unmarshal h
  rwa [BatchRedeemResponse.unmarshal_marshal, BatchRedeemResponse.unmarshal_marshal,
    Option.some.injEq] at hvisible

/-- What is in the JSON of a response stays in it. -/
theorem BatchRedeemResponse.visible_visible (r : BatchRedeemResponse) :
    r.visible.visible = r.visible := by
  have hitem : BatchRedeemItem.visible ∘ BatchRedeemItem.visible = BatchRedeemItem.visible := by
    funext item
    cases hredemption : item.redemption with
    | none => simp [BatchRedeemItem.visible, hredemption]
    | some r =>
      simp only [Function.comp_apply, BatchRedeemItem.visible, hredemption, Option.map_some]
      rfl
  simp [visible, List.map_map, hitem]

variable {ι : Type} [DecidableEq ι] {start : Start ι} {log log' : List (Commit ι Tables)}
  {e e' : Commit ι Tables} {T : Tables} {K : String} {req req' : BatchRedeemRequest}
  {items items' : List (String × BatchRedeemItem)}

/-- After the commits of `log`, a commit stores the response of its caller's batch request with the
key `K`, which is that for the items of what its caller has redeemed before. -/
structure StoresBatch (start : Start ι) (K : String) (log : List (Commit ι Tables))
    (e : Commit ι Tables) (req : BatchRedeemRequest) (items : List (String × BatchRedeemItem)) :
    Prop where
  call : start.calls e.caller = .batchRedeem req
  key : req.idempotencyKey = K
  tally : ∃ seen, Tally start.rt start.clock (Past log e.before) req seen items
    (log.filter fun e' => e'.caller = e.caller)
  all : items.map Prod.fst = req.codes
  free : KeyFree e.before K (hashBatchRequest start.rt req.trimmed)
  keys : e.after.keys = keyed e.before.keys K (hashBatchRequest start.rt req.trimmed)
    (req.trimmed.response items).marshal

/-- The row of the key that such a commit leaves. -/
def BatchRedeemRequest.storedRow (req : BatchRedeemRequest) (rt : Runtime)
    (items : List (String × BatchRedeemItem)) : IdempotencyKey :=
  ⟨req.idempotencyKey, hashBatchRequest rt req.trimmed, some (req.trimmed.response items).marshal⟩

/-- No single redemption carries the key, and it has not been used at the start. -/
structure BatchesOnly (start : Start ι) (K : String) : Prop where
  calls : ∀ i req, start.calls i = .redeem req → req.idempotencyKey ≠ K
  key : start.tables.keys.get? K = none

omit [DecidableEq ι] in
/-- A redemption changes the row of its own key only. -/
theorem Redeemed.get?_of_ne {rt : Runtime} {clock : Time} {past : Tables → Prop}
    {req : RedeemRequest} {resp : RedeemResponse} (h : Redeemed rt clock past req e resp)
    (hkey : req.idempotencyKey = "" ∨ K ≠ req.idempotencyKey) :
    e.after.keys.get? K = e.before.keys.get? K := by
  rw [h.keys]
  exact get?_keyed_of_ne hkey

/-- A commit leaves the key's row as it is, or it stores the response of a batch request with the
key. -/
theorem Transition.stores (hb : BatchesOnly start K)
    (h : Transition start log e (start.calls e.caller)) :
    e.after.keys.get? K = e.before.keys.get? K ∨
    ∃ req items, StoresBatch start K log e req items := by
  have hsame : e.after.keys = e.before.keys → e.after.keys.get? K = e.before.keys.get? K ∨
      ∃ req items, StoresBatch start K log e req items := fun heq => Or.inl (by rw [heq])
  generalize hcall : start.calls e.caller = call at h
  cases h with
  | redeem h => exact Or.inl (h.get?_of_ne (Or.inr (hb.calls _ _ hcall).symm))
  | batchItem hcode h => exact Or.inl (h.get?_of_ne (Or.inl rfl))
  | @batchStored req seen items hkey tally all free after =>
    have hkeys : e.after.keys = keyed e.before.keys req.idempotencyKey
        (hashBatchRequest start.rt req.trimmed) (req.trimmed.response items).marshal := by
      rw [after, tables_stored]
    -- The batch stores its response under its own key, which may be this one.
    by_cases hK : req.idempotencyKey = K
    · subst hK
      exact Or.inr ⟨req, items, hcall, rfl, ⟨seen, tally⟩, all, free, hkeys⟩
    · rw [hkeys]
      exact Or.inl (get?_keyed_of_ne (Or.inr (Ne.symm hK)))
  | idle after => exact hsame (by rw [after])
  | leased h =>
    obtain ⟨o, token, expires, -, -, -, after⟩ := h
    exact hsame (by rw [after]; rfl)
  | toggledBatch after | toggledCode after
  | outboxReported report lease row token leased finishes retries after
  | redemptionReported report row event redemption current reports agrees after
  | resent row success finished redemptionEvent new outboxEvent outbox after =>
    exact hsame (by rw [after]; rfl)
  | createdBatch h =>
    refine hsame ?_
    rw [h.after, Dbms.applyAll_cons, applyAll_map_same Tables.keys fun _ _ => rfl]
    rfl
  | imported new after => exact hsame (by rw [after, applyAll_map_same Tables.keys fun _ _ => rfl])
  | deleted ids hcall after =>
    exact hsame (by rw [after, applyAll_map_same Tables.keys fun _ _ => rfl])

/-- The stored response stays in the key's row for good. -/
theorem StoresBatch.row (hs : StoresBatch start K log' e req items) (hK : K ≠ "")
    (h : History start log T) (he : e ∈ log) :
    T.keys.get? K = some (req.storedRow start.rt items) := by
  rw [BatchRedeemRequest.storedRow, hs.key]
  exact h.keyed_row he hK hs.free hs.keys

/-- The row of the key comes from a commit that has stored it. -/
theorem BatchesOnly.origin (hb : BatchesOnly start K) (hK : K ≠ "") (h : History start log T)
    {row : IdempotencyKey} (hrow : T.keys.get? K = some row) : ∃ log' e req items,
      log' ++ [e] <+: log ∧ StoresBatch start K log' e req items ∧
        row = req.storedRow start.rt items := by
  induction h with
  | start =>
    rw [hb.key] at hrow
    cases hrow
  | @commit log e h time he ih =>
    rcases he.stores hb with hsame | ⟨req, items, hs⟩
    · rw [hsame] at hrow
      obtain ⟨log', e', req, items, hbefore, hs, heq⟩ := ih hrow
      exact ⟨log', e', req, items, hbefore.trans (List.prefix_append _ _), hs, heq⟩
    · have hnew := hs.row hK (h.commit time he) (by simp)
      exact ⟨log, e, req, items, List.prefix_refl _, hs, Option.some.inj (hrow.symm.trans hnew)⟩

/-- No commit stores a response for the key when there is one. -/
theorem StoresBatch.first (hs : StoresBatch start K log e req items) (hK : K ≠ "")
    (h : History start log e.before) {log₀ : List (Commit ι Tables)}
    (hs' : StoresBatch start K log₀ e' req' items') : e' ∉ log := by
  intro he'
  have hnone := (hs.free hK _ (hs'.row hK h he')).2
  cases hnone

/-- Only one commit stores a response for the key. -/
theorem StoresBatch.unique (hK : K ≠ "") (h : History start log T)
    {log₁ log₂ : List (Commit ι Tables)} (h₁ : log₁ ++ [e] <+: log) (h₂ : log₂ ++ [e'] <+: log)
    (hs : StoresBatch start K log₁ e req items) (hs' : StoresBatch start K log₂ e' req' items') :
    log₁ = log₂ ∧ e = e' := by
  induction h with
  | start => exact absurd (List.prefix_nil.mp h₁) (by simp)
  | @commit log e₀ h time hcommit ih =>
    rcases List.prefix_concat_iff.mp h₁ with heq | hold <;>
      rcases List.prefix_concat_iff.mp h₂ with heq' | hold'
    · obtain ⟨hlog, he⟩ := List.append_inj' (heq.trans heq'.symm) rfl
      exact ⟨hlog, List.singleton_inj.mp he⟩
    · obtain ⟨rfl, he⟩ := List.append_inj' heq rfl
      obtain rfl := List.singleton_inj.mp he
      exact absurd (hold'.subset (by simp)) (hs.first hK h hs')
    · obtain ⟨rfl, he⟩ := List.append_inj' heq' rfl
      obtain rfl := List.singleton_inj.mp he
      exact absurd (hold.subset (by simp)) (hs'.first hK h hs)
    · exact ih hold hold'

variable {as : List (Action ι Choice)} {s : State ι} {i : ι} {resp : BatchRedeemResponse}
  {r : Except GoError BatchRedeemResponse}

/-- An accepted request with the key that has returned a response comes after a commit that has
stored one. -/
theorem BatchesOnly.stored (hb : BatchesOnly start K) (hK : K ≠ "") (h : start.run as = some s)
    (hcall : start.calls i = .batchRedeem req) (hkey : req.idempotencyKey = K)
    (hinput : checkBatchInput req.trimmed = none)
    (hret : s.progs i = some (.ret (.batchRedeem (.ok resp)))) :
    ∃ log e req items, log ++ [e] <+: s.db.log ∧ StoresBatch start K log e req items := by
  have hrow : ∃ row, s.db.tables.keys.get? K = some row := by
    obtain ⟨r', hr', houtcome⟩ := Start.batchRedeem_returned h hcall hret
    obtain rfl : .ok resp = r' := by injection hr'
    cases houtcome with
    | invalid hinvalid =>
      rw [hinput] at hinvalid
      cases hinvalid
    | answered _ ha hlog =>
      rw [hkey] at ha
      cases ha with
      | replayed _ hrow hhash hbody hresp => exact ⟨_, hrow⟩
    | done _ hnone tally all hlog => exact absurd (hkey.symm.trans hnone) hK
    | stored _ hne tally all hlog hrow => exact ⟨_, hkey ▸ hrow⟩
  obtain ⟨row, hrow⟩ := hrow
  obtain ⟨log, e, req, items, hbefore, hs, -⟩ := hb.origin hK (Start.history h) hrow
  exact ⟨log, e, req, items, hbefore, hs⟩

/-- An accepted request with the key that has returned after a commit has stored a response: it
returns that response if its hash is the same, and otherwise it has redeemed nothing and has a
conflict, unless an operation has failed. -/
theorem StoresBatch.answered (hs : StoresBatch start K log e req items) (hK : K ≠ "")
    (h : start.run as = some s) (he : e ∈ s.db.log) (hcall : start.calls i = .batchRedeem req')
    (hkey : req'.idempotencyKey = K) (hinput : checkBatchInput req'.trimmed = none)
    (hret : s.progs i = some (.ret (.batchRedeem r))) :
    (∀ resp, r = .ok resp →
      hashBatchRequest start.rt req'.trimmed = hashBatchRequest start.rt req.trimmed ∧
        resp.visible = (req.trimmed.response items).visible) ∧
      (hashBatchRequest start.rt req'.trimmed ≠ hashBatchRequest start.rt req.trimmed →
        s.db.failed i = true ∨ s.db.ownLog i = [] ∧ r = .error .idempotencyConflict) := by
  have hrow := hs.row hK (Start.history h) he
  obtain ⟨r', hr', houtcome⟩ := Start.batchRedeem_returned h hcall hret
  obtain rfl : r = r' := by injection hr'
  cases houtcome with
  | invalid hinvalid =>
    rw [hinput] at hinvalid
    cases hinvalid
  | answered _ ha hlog =>
    rw [hkey] at ha
    cases ha with
    | @replayed row body resp _ hrow' hhash hbody hresp =>
      obtain rfl := Option.some.inj (hrow.symm.trans hrow')
      obtain rfl := Option.some.inj hbody
      rw [BatchRedeemResponse.unmarshal_marshal, Option.some.injEq] at hresp
      refine ⟨fun resp' hok => ⟨hhash.symm, ?_⟩, fun hne => absurd hhash.symm hne⟩
      obtain rfl := Except.ok.inj hok
      rw [← hresp, BatchRedeemResponse.visible_visible]
    | @conflict row _ hrow' hne => exact ⟨nofun, fun _ => Or.inr ⟨hlog, rfl⟩⟩
    | @undecodable row body err _ hrow' _ hbody hnone =>
      obtain rfl := Option.some.inj (hrow.symm.trans hrow')
      obtain rfl := Option.some.inj hbody
      rw [BatchRedeemResponse.unmarshal_marshal] at hnone
      cases hnone
  | done _ hnone tally all hlog => exact absurd (hkey.symm.trans hnone) hK
  | @stored seen items' own e' _ hne tally all hlog hrow' =>
    -- The call's own response is in the row, which is the one of `e`.
    rw [hkey, hrow, Option.some.injEq, BatchRedeemRequest.storedRow, IdempotencyKey.mk.injEq,
      Option.some.injEq] at hrow'
    obtain ⟨-, hhash, hbody⟩ := hrow'
    refine ⟨fun resp' hok => ⟨hhash.symm, ?_⟩, fun hne => absurd hhash.symm hne⟩
    obtain rfl := Except.ok.inj hok
    exact (BatchRedeemResponse.visible_of_marshal hbody).symm
  | failed hf => exact ⟨nofun, fun _ => Or.inl hf⟩

/-- A request with a key that has returned a response has committed nothing, or its commits are the
redemptions that its response tells of and one more. -/
theorem Start.batch_ownLog (h : start.run as = some s) (hcall : start.calls i = .batchRedeem req)
    (hK : req.idempotencyKey ≠ "") (hret : s.progs i = some (.ret (.batchRedeem (.ok resp)))) :
    s.db.ownLog i = [] ∨ ∃ seen items own e, s.db.ownLog i = own ++ [e] ∧
      Tally start.rt start.clock (Past s.db.log s.db.tables) req seen items own ∧
      items.map Prod.fst = req.codes ∧ resp = req.trimmed.response items := by
  obtain ⟨r', hr', houtcome⟩ := Start.batchRedeem_returned h hcall hret
  obtain rfl : .ok resp = r' := by injection hr'
  cases houtcome with
  | invalid _ hlog => exact Or.inl hlog
  | answered _ ha hlog => exact Or.inl hlog
  | done _ hnone tally all hlog => exact absurd hnone hK
  | @stored seen items own e _ hne tally all hlog hrow =>
    exact Or.inr ⟨seen, items, own, e, hlog, tally, all, rfl⟩

/-- In every run of any calls, with any of them failing or dying at any operation, and for every key
that only batch requests carry: at most one commit stores a response for the key. An accepted
request with the key that returns a response returns the stored one, which is that for what the
attempt that has stored it has redeemed; the two requests have the same hash, and the request has
redeemed nothing itself or just what the response tells of. Once a response is stored, an accepted
request of another hash that returns has redeemed nothing and has a conflict, unless a database
operation has failed. -/
theorem batch_redeem_idempotent (hb : BatchesOnly start K) (hK : K ≠ "")
    (h : start.run as = some s) :
    (∀ log e req items log' e' req' items', log ++ [e] <+: s.db.log → log' ++ [e'] <+: s.db.log →
      StoresBatch start K log e req items → StoresBatch start K log' e' req' items' →
      log = log' ∧ e = e') ∧
    ∀ i req r, start.calls i = .batchRedeem req → req.idempotencyKey = K →
      checkBatchInput req.trimmed = none → s.progs i = some (.ret (.batchRedeem r)) →
      (∀ resp, r = .ok resp → ∃ log e req₀ items, log ++ [e] <+: s.db.log ∧
        StoresBatch start K log e req₀ items ∧
        hashBatchRequest start.rt req.trimmed = hashBatchRequest start.rt req₀.trimmed ∧
        resp.visible = (req₀.trimmed.response items).visible ∧
        (s.db.ownLog i = [] ∨ ∃ seen items own e', s.db.ownLog i = own ++ [e'] ∧
          Tally start.rt start.clock (Past s.db.log s.db.tables) req seen items own ∧
          items.map Prod.fst = req.codes ∧ resp = req.trimmed.response items)) ∧
      ∀ log e req₀ items, log ++ [e] <+: s.db.log → StoresBatch start K log e req₀ items →
        hashBatchRequest start.rt req.trimmed ≠ hashBatchRequest start.rt req₀.trimmed →
        s.db.failed i = true ∨ s.db.ownLog i = [] ∧ r = .error .idempotencyConflict := by
  refine ⟨fun log e req items log' e' req' items' hp hp' hs hs' =>
    hs.unique hK (Start.history h) hp hp' hs', fun i req r hcall hkey hinput hret => ⟨?_, ?_⟩⟩
  · rintro resp rfl
    obtain ⟨log, e, req₀, items, hbefore, hs⟩ := hb.stored hK h hcall hkey hinput hret
    have he : e ∈ s.db.log := hbefore.subset (by simp)
    obtain ⟨hhash, hvisible⟩ := (hs.answered hK h he hcall hkey hinput hret).1 resp rfl
    exact ⟨log, e, req₀, items, hbefore, hs, hhash, hvisible,
      Start.batch_ownLog h hcall (hkey ▸ hK) hret⟩
  · intro log e req₀ items hbefore hs hne
    exact (hs.answered hK h (hbefore.subset (by simp)) hcall hkey hinput hret).2 hne

/-- Two requests for one user and code with one key. -/
def twiceBatches (second : Bool) : BatchRedeemRequest :=
  ⟨if second then " u" else "u", ["aaaa"], "k", ""⟩

/-- The two requests run on the tables with one code and one credential. -/
def batchTwice : Start Bool :=
  Start.of (fun second => .batchRedeem (twiceBatches second)) rewardTables ⟨2, 2, 2, 1, 1⟩
    rewardTables_below checkIntegrity_rewardTables

/-- The requests run one after the other. -/
def batchTwiceRun : List (Action Bool Choice) :=
  List.replicate 18 (.exec false ⟨1, String.ofList (List.replicate 32 'a'), .unsent⟩) ++
    List.replicate 4 (.exec true ⟨1, "", .unsent⟩)

/-- No single redemption carries their key, since both calls are batches. -/
theorem batchTwice_batchesOnly : BatchesOnly batchTwice "k" :=
  ⟨fun _ _ h => (by cases h), rfl⟩

/-- The second request returns the response of the first one. -/
theorem batch_redeem_idempotent_twice : ∃ s resp log e req items,
    batchTwice.run batchTwiceRun = some s ∧ s.progs true = some (.ret (.batchRedeem (.ok resp))) ∧
    log ++ [e] <+: s.db.log ∧ StoresBatch batchTwice "k" log e req items ∧
    resp.visible = (req.trimmed.response items).visible := by
  have hsome : ((batchTwice.result? batchTwiceRun true).bind Result.batchResponse?).isSome := by
    decide +kernel
  obtain ⟨resp, hresp⟩ := Option.isSome_iff_exists.mp hsome
  obtain ⟨r, hr, hresp⟩ := Option.bind_eq_some_iff.mp hresp
  obtain ⟨s, hs, hp⟩ := Start.result?_eq_some hr
  rw [Result.batchResponse?_eq_some hresp] at hp
  have hall := (batch_redeem_idempotent batchTwice_batchesOnly (by decide) hs).2 true
    (twiceBatches true) (.ok resp) rfl rfl (by decide +kernel) hp
  obtain ⟨log, e, req, items, hbefore, hstores, -, hvisible, -⟩ := hall.1 resp rfl
  exact ⟨s, resp, log, e, req, items, hs, hp, hbefore, hstores, hvisible⟩

end CdkSystem
