import CdkSystem.Proof.Rules

/-!
# Claiming a key and storing its response

The specifications of `handleIdempotency` and its relatives. A key that was claimed (`Claimed`) is
locked, and its row is new or waits for a response; `claimKey` otherwise answers from the stored row
(`Answered`). Storing the response of a claimed key makes the change `closeKey`.

There are two functions for single redemptions and two for batches, which differ in the type of the
response that they decode. The insert waits for another transaction that has inserted the same key,
and then does nothing; only after it has the row's lock does the function read the row, so what it
reads was committed.
-/

namespace CdkSystem

open RowLock Relational

variable {ι : Type} [DecidableEq ι] {start : Start ι} {i : ι} {d base : Database ι} {t : Slot}
  {now : Time} {ws wk : List Write} {ls : List Lock} {F : Database ι → Prop} {α : Type}

/-- The key is free for the request, and `wk` is the change that claims it. -/
structure Claimed (key : String) (requestHash : List UInt8) (wk : List Write) (T : Tables) :
    Prop where
  free : KeyFree T key requestHash
  writes : wk = openKey T key requestHash

/-- That a key is claimed is steady under the key's lock. -/
theorem steady_claimed {key : String} {hash : List UInt8}
    (h : key ≠ "" → Lock.key key ∈ ls) :
    start.Steady ls fun d => Claimed key hash wk d.tables := by
  intro d d' hsame _ _ _ hc
  by_cases hk : key = ""
  · refine ⟨fun hne => absurd hk hne, ?_⟩
    rw [hc.writes]
    simp [openKey, hk]
  · have hrow : d'.tables.keys.get? key = d.tables.keys.get? key := hsame _ (h hk)
    refine ⟨fun hne row hr => hc.free hne row (hrow ▸ hr), ?_⟩
    rw [hc.writes, openKey, openKey, hrow]

/-- The change that claims a key leaves the other tables as they are. -/
theorem Claimed.same {key : String} {hash : List UInt8} {T : Tables} (h : Claimed key hash wk T)
    {β : Type} (f : Tables → β) (hf : ∀ (T : Tables) keys, f { T with keys := keys } = f T)
    (T' : Tables) : f (postgres.applyAll T' wk) = f T' := by
  rw [h.writes]
  exact applyAll_openKey_same f hf T' T key hash

/-- What a used key answers is what it answers for good. -/
theorem Answered.mono {decode : Json → Option α} {key : String} {hash : List UInt8} {T T' : Tables}
    {r : Except GoError α} (h : Answered decode key hash T r) (hT : Evolves T T')
    (hkeys : KeysKept T T') : Answered decode key hash T' r := by
  cases h with
  | replayed hkey hrow hhash hbody hresp =>
    exact .replayed hkey (hkeys _ _ hrow (by simp [hbody])) hhash hbody hresp
  | conflict hkey hrow hhash =>
    obtain ⟨row', hrow', hl⟩ := hT.keys _ _ hrow
    exact .conflict hkey hrow' fun he => hhash (Eq.trans (Eq.symm hl) he)
  | undecodable hkey hrow hhash hbody hresp =>
    exact .undecodable hkey (hkeys _ _ hrow (by simp [hbody])) hhash hbody hresp

/-- `claimKey` claims the key, or answers from its row. -/
theorem claimKey_wp {create lock unmarshal key : String} {hash : List UInt8}
    {decode : Json → Option α} (hk : key ≠ "")
    {post : Except GoError (Option α) → Database ι → Prop}
    (h : start.Held i t base now [] [] (fun _ => True) d)
    (hfail : ∀ err d', start.Lost i (some t) base d' → post (.error err) d')
    (hclaimed : ∀ wk d', start.Held i t base now wk [.key key]
      (fun d => Claimed key hash wk d.tables) d' → post (.ok none) d')
    (hstored : ∀ resp d', start.Held i t base now [] [.key key] (fun _ => True) d' →
      Answered decode key hash d'.tables (.ok resp) → post (.ok (some resp)) d')
    (herror : ∀ err d', start.Held i t base now [] [.key key] (fun _ => True) d' →
      Answered decode key hash d'.tables (.error err) → post (.error err) d') :
    start.Wp i (claimKey t create lock unmarshal key hash decode).run post d := by
  unfold claimKey
  refine Go.wp_bind (Go.wp_query h (fun _ => trivial) (fun d' hl => hfail _ d' hl)
    fun c e he => ?_)
  rcases exec_createIdempotencyKey he with ⟨row, hrow, rfl⟩ | ⟨hnone, rfl⟩
  · -- The key has a row: it is locked and read.
    refine ⟨fun d => ∃ row, d.tables.keys.get? key = some row, ⟨row, hrow⟩,
      fun d d' _ hle _ _ hx => hle.tables.keys.exists hx, fun d' hd' => ?_⟩
    refine Go.wp_bind (Go.wp_query hd' (fun _ => trivial) (fun d'' hl => hfail _ d'' hl)
      fun c e he => ?_)
    rcases exec_lockIdempotencyKeyByKey he with ⟨hnone, -⟩ | ⟨row, hrow, rfl⟩
    · -- Nobody deletes the row of a key, so it is still there when it is locked.
      obtain ⟨row', hrow'⟩ := hd'.facts
      rw [show d'.tables.keys.get? key = none from hnone] at hrow'
      cases hrow'
    refine ⟨fun d => d.tables.keys.get? key = some row, hrow,
      steady_key (fun r => r = some row) (by simp), fun d'' hd'' => ?_⟩
    dsimp only [List.nil_append] at hd'' ⊢
    have hrow'' := hd''.facts
    -- With another hash there is a conflict, whatever the row's response is.
    by_cases hh : equalHash row.requestHash hash = false
    · rw [if_pos hh]
      refine Go.wp_throw (herror _ d'' (hd''.weaken fun _ => trivial) (.conflict hk hrow'' ?_))
      intro heq
      rw [(equalHash_iff _ _).mpr heq] at hh
      cases hh
    · rw [if_neg hh]
      have heq : row.requestHash = hash := (equalHash_iff _ _).mp (by simpa using hh)
      cases hbody : row.responseBody with
      | none =>
        -- The row still waits for a response, and it is this transaction that writes it.
        refine Go.wp_pure (hclaimed [] d'' (hd''.weaken fun hr => ⟨fun _ row' hr' => ?_, ?_⟩))
        · rw [hr, Option.some.injEq] at hr'
          exact hr' ▸ ⟨heq, hbody⟩
        · simp [openKey, hr]
      | some body =>
        simp only
        cases hdecode : decode body with
        | none =>
          refine Go.wp_throw (herror _ d'' (hd''.weaken fun _ => trivial) ?_)
          exact .undecodable hk hrow'' heq hbody hdecode
        | some resp =>
          refine Go.wp_pure (hstored resp d'' (hd''.weaken fun _ => trivial) ?_)
          exact .replayed hk hrow'' heq hbody hdecode
  · -- The key is new.
    refine ⟨fun d => Claimed key hash [.createIdempotencyKey ⟨key, hash, none⟩] d.tables,
      ⟨fun _ row hr => ?_, ?_⟩, steady_claimed fun _ => by simp, fun d' hd' => ?_⟩
    · rw [show d.tables.keys.get? key = none from hnone] at hr
      cases hr
    · rw [openKey, if_neg (by simp [hk, show d.tables.keys.get? key = none from hnone])]
    · exact Go.wp_pure (hclaimed _ d' hd')

/-- Storing the response of a claimed key. -/
theorem store_wp {err : GoError} {key : String} {hash : List UInt8} {body : Json} (ws : List Write)
    (hk : key ≠ "")
    {post : Except GoError Unit → Database ι → Prop}
    (h : start.Held i t base now (wk ++ ws) ls F d) (hF : start.Steady ls F)
    (hclaimed : F d → Claimed key hash wk d.tables)
    (hws : ∀ T : Tables, (postgres.applyAll T ws).keys = T.keys)
    (hfail : ∀ d', start.Lost i (some t) base d' → post (.error err) d')
    (hok : ∀ d', start.Held i t base now (wk ++ ws ++ closeKey key body) (ls ++ [.key key]) F d' →
      post (.ok ()) d') :
    start.Wp i (Go.query err t (.setIdempotencyResponse key body)).run post d := by
  refine Go.wp_query h (fun _ => trivial) hfail fun c e he => ?_
  have hc := hclaimed h.facts
  obtain ⟨row, hrow⟩ : ∃ row, (postgres.applyAll d.tables (wk ++ ws)).keys.get? key = some row := by
    rw [Dbms.applyAll_append, hws, hc.writes]
    exact get?_openKey _ _ hk
  rcases exec_setIdempotencyResponse he with ⟨hnone, -⟩ | ⟨row', hrow', rfl⟩
  · rw [show (postgres.applyAll d.tables (wk ++ ws)).keys.get? key = none from hnone] at hrow
    cases hrow
  · refine ⟨F, h.facts, hF.append _, fun d' hd' => hok d' ?_⟩
    rw [closeKey, if_neg hk]
    exact hd'

end CdkSystem
