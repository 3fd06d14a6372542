import CdkSystem.Proof.Running

/-!
# Imports are whole

Every point that a call of `importCredentials` can reach, with what it has done (`ImportPoint`): its
transaction holds the rows of the items so far, and at most one transaction of it has been
committed, which added the rows of all items. This holds in every run (`Start.importPoint`),
whatever the other calls do.

The points are followed operation by operation (`ImportPoint.step`). A point knows the rows that its
transaction has inserted and that nothing was committed before, so an error, wherever it comes from,
leaves nothing behind, and it comes only from an operation that has failed. What other calls do in
between does not change what a point says of this call (`ImportPoint.frame`).
-/

namespace CdkSystem

open RowLock Relational

variable {ι : Type} [DecidableEq ι] {start : Start ι} {i : ι} {items : List CredentialItem}
  {s s' : State ι} {as : List (Action ι Choice)} {d : Database ι}

/-- A commit that has added the rows of the items, one after another, and changed nothing else. -/
def StoresAll (items : List CredentialItem) (e : Commit ι Tables) : Prop :=
  ∃ cs : List Credential, List.Forall₂ (fun (item : CredentialItem) c => c = item.row c.id)
    items cs ∧
    e.after.credentials.rows = e.before.credentials.rows ++ cs ∧
    e.after = { e.before with credentials := e.after.credentials }

/-- The end of an import: the deferred rollback. -/
def endImport (r : Except GoError ℕ) : M Result :=
  Prog.op (.rollback .tx) fun _ => .ret (.imported r)

/-- What is left of an import after its loop. -/
def commitImport (n : ℕ) : Except GoError Unit → M Result
  | .ok _ => Prog.op (.commit .tx) fun
    | .ok _ => endImport (.ok n)
    | .error _ => endImport (.error (.wrap "commit transaction" .database))
  | .error err => endImport (.error err)

/-- What is left of an import of `n` items when these are left. -/
def importRest (n : ℕ) (rest : List CredentialItem) : M Result :=
  (createCredentials rest).run >>= commitImport n

/-- An import begins a transaction, and inserts its items. -/
theorem callProgram_import (rt : Runtime) (items : List CredentialItem) :
    callProgram rt (.importCredentials items) = Prog.op (.begin .tx) fun
      | .ok _ => importRest items.length items
      | .error _ => .ret (.imported (.error (.wrap "begin transaction" .database))) := by
  change ((importCredentials items).run >>= fun r => Prog.ret (Result.imported r)) = _
  unfold importCredentials
  rw [Go.run_bind, Go.run_begin]
  congr 1
  funext a
  cases a with
  | error f => rfl
  | ok u =>
    simp only [Go.run_deferRollback]
    unfold importCredentialsTx importRest
    rw [Go.run_bind]
    congr 1
    funext r
    cases r with
    | error err => rfl
    | ok u =>
      simp only [Go.run_bind, Go.run_commit]
      unfold commitImport
      congr 1
      funext a
      cases a <;> rfl

/-- The rest of an import with an item left: the item is inserted, and the others follow. -/
theorem importRest_cons (n : ℕ) (item : CredentialItem) (rest : List CredentialItem) :
    importRest n (item :: rest) = Prog.op (.query .tx (.createCredential item)) fun
      | .ok _ => importRest n rest
      | .error _ => endImport (.error (.wrap "create credential" .database)) := by
  have hloop : createCredentials (item :: rest) =
      (Go.query (.wrap "create credential" .database) .tx (.createCredential item) >>= fun _ =>
        createCredentials rest) := rfl
  unfold importRest
  rw [hloop, Go.run_bind, Go.run_query]
  congr 1
  funext a
  cases a <;> rfl

/-- The points of an import of the items, with what it has done. It goes to its error only when one
of its operations has failed. -/
inductive ImportPoint (start : Start ι) (i : ι) (items : List CredentialItem) :
    Option (M Result) → Database ι → Prop
  | begin {d : Database ι} (htx : d.txs i .tx = none) (hlog : d.ownLog i = []) :
      ImportPoint start i items (some (callProgram start.rt (.importCredentials items))) d
  | inserting {d : Database ι} (rest : List CredentialItem) {done : List CredentialItem}
      {cs : List Credential} {now : Time} (hitems : done ++ rest = items)
      (hrows : List.Forall₂ (fun (item : CredentialItem) c => c = item.row c.id) done cs)
      (hids : cs.Pairwise fun c c' => c.id < c'.id) (hbelow : ∀ c ∈ cs, c.id < d.seq.credentials)
      (htx : d.txs i .tx = some ⟨now, cs.map .createCredential, false⟩) (hlog : d.ownLog i = []) :
      ImportPoint start i items (some (importRest items.length rest)) d
  | failed {d : Database ι} {err : GoError} (hlog : d.ownLog i = [])
      (hfailed : d.failed i = true) :
      ImportPoint start i items (some (endImport (.error err))) d
  | stored {d : Database ι} {e : Commit ι Tables} (hlog : d.ownLog i = [e])
      (hall : StoresAll items e) :
      ImportPoint start i items (some (endImport (.ok items.length))) d
  | returnedError {d : Database ι} {err : GoError} (hlog : d.ownLog i = [])
      (hfailed : d.failed i = true) :
      ImportPoint start i items (some (.ret (.imported (.error err)))) d
  | returned {d : Database ι} {e : Commit ι Tables} (hlog : d.ownLog i = [e])
      (hall : StoresAll items e) :
      ImportPoint start i items (some (.ret (.imported (.ok items.length)))) d
  | dead {d : Database ι} (h : d.ownLog i = [] ∨ ∃ e, d.ownLog i = [e] ∧ StoresAll items e) :
      ImportPoint start i items none d

/-- At every point, nothing has been stored or everything. -/
theorem ImportPoint.ownLog {p : Option (M Result)} (h : ImportPoint start i items p d) :
    d.ownLog i = [] ∨ ∃ e, d.ownLog i = [e] ∧ StoresAll items e := by
  cases h with
  | begin _ hlog | inserting _ _ _ _ _ _ hlog | failed hlog _ | returnedError hlog _ =>
    exact Or.inl hlog
  | stored hlog hall | returned hlog hall => exact Or.inr ⟨_, hlog, hall⟩
  | dead h => exact h

/-- What others do leaves an import where it is. -/
theorem ImportPoint.frame {d' : Database ι} {p : Option (M Result)}
    (h : ImportPoint start i items p d) (htx : d'.txs i .tx = d.txs i .tx)
    (hquiet : Quiet i d d') (hseq : d.seq.credentials ≤ d'.seq.credentials) :
    ImportPoint start i items p d' := by
  have hlog := hquiet.log
  cases h with
  | begin h1 h2 => exact .begin (htx.trans h1) (hlog.trans h2)
  | inserting rest hitems hrows hids hbelow h1 h2 =>
    exact .inserting rest hitems hrows hids (fun c hc => (hbelow c hc).trans_le hseq) (htx.trans h1)
      (hlog.trans h2)
  | failed h1 h2 => exact .failed (hlog.trans h1) (hquiet.failed.trans h2)
  | stored h1 h2 => exact .stored (hlog.trans h1) h2
  | returnedError h1 h2 => exact .returnedError (hlog.trans h1) (hquiet.failed.trans h2)
  | returned h1 h2 => exact .returned (hlog.trans h1) h2
  | dead h1 => exact .dead (by rwa [hlog])

/-- Inserting rows with new, different keys appends them. -/
theorem rows_created {cs : List Credential} :
    ∀ {T : Tables}, (∀ c ∈ cs, T.credentials.get? c.id = none) →
      cs.Pairwise (fun c c' => c.id < c'.id) →
      (postgres.applyAll T (cs.map .createCredential)).credentials.rows =
        T.credentials.rows ++ cs ∧
      postgres.applyAll T (cs.map .createCredential) =
        { T with credentials := (postgres.applyAll T (cs.map .createCredential)).credentials } := by
  -- The induction is on the rows; each one is appended, since no row with its number is there
  -- yet.
  induction cs with
  | nil => exact fun _ _ => ⟨by simp, rfl⟩
  | cons c cs ih =>
    intro T hnew hids
    obtain ⟨hfirst, hrest⟩ := List.pairwise_cons.mp hids
    have hinsert : (T.credentials.insert c).rows = T.credentials.rows ++ [c] :=
      Table.rows_insert (hnew c List.mem_cons_self)
    have hnew' : ∀ c' ∈ cs, (T.apply (.createCredential c)).credentials.get? c'.id = none := by
      intro c' hc'
      have hne : key c ≠ c'.id := ne_of_lt (hfirst c' hc')
      change (T.credentials.insert c).get? c'.id = none
      rw [Table.get?_insert_of_ne hne]
      exact hnew c' (List.mem_cons_of_mem c hc')
    obtain ⟨hrows, hsame⟩ := ih hnew' hrest
    rw [List.map_cons, Dbms.applyAll_cons]
    refine ⟨?_, ?_⟩
    · refine hrows.trans ?_
      change (T.credentials.insert c).rows ++ cs = _
      rw [hinsert, List.append_assoc]
      rfl
    · exact hsame

/-- An import's own operation leads to its next point. -/
theorem ImportPoint.step (hinv : start.Inv d) {p : Option (M Result)} {o : TxOp Slot Query Env}
    {k : o.Ans Query.Ans Env.Ans → M Result} {a : o.Ans Query.Ans Env.Ans} {d' : Database ι}
    (h : ImportPoint start i items p d) (hp : p = some (.op o k))
    (hs : OpStep postgres i o d a d') :
    ImportPoint start i items (some (k a)) d' := by
  cases h with
  | begin htx hlog =>
    rw [callProgram_import] at hp
    cases hp
    cases hs.did with
    | begin hfree _ =>
      have hopen : ({ d.setTx i .tx ⟨d.clock, [], false⟩ with free := d.free - 1 }
          : Database ι).txs i .tx = some ⟨d.clock, [], false⟩ := by
        simp [Db.setTx]
      exact .inserting items (List.nil_append items) List.Forall₂.nil List.Pairwise.nil (by simp)
        hopen hlog
    | beginFailed => exact .returnedError hlog (by simp [Db.flag])
  | @inserting _ rest done cs now hitems hrows hids hbelow htx hlog =>
    cases rest with
    -- All rows are in the transaction: it commits, or the import fails with its flag set.
    | nil =>
      cases hp
      cases hs.did with
      | @commit _ tx htx' hdoomed =>
        rw [htx, Option.some.injEq] at htx'
        subst htx'
        rw [List.append_nil] at hitems
        subst hitems
        -- The new rows have `id`s that no table of the past has.
        have hnew : ∀ c ∈ cs, d.tables.credentials.get? c.id = none := fun c hc =>
          hinv.fresh i .tx _ htx c (List.mem_map_of_mem hc) d.tables (Or.inl rfl)
        obtain ⟨hafter, hsame⟩ := rows_created hnew hids
        have hcommit : ((d.record i (postgres.applyAll d.tables (cs.map .createCredential))).close i
            .tx).ownLog i = [⟨i, d.clock, d.tables,
              postgres.applyAll d.tables (cs.map .createCredential)⟩] := by
          simpa [Db.ownLog, Db.close, Db.record] using hlog
        exact .stored hcommit ⟨cs, hrows, hafter, hsame⟩
      | commitFailed htx' => exact .failed hlog (by simp [Db.flag])
      | commitClosed htx' => exact .failed hlog (by simp [Db.flag])
    | cons item rest =>
      -- The next row is inserted, and its number is above those of the rows before it.
      rw [importRest_cons] at hp
      cases hp
      cases hs.did with
      | @query _ _ tx c e htx' hdoomed hexec hlocks =>
        rw [htx, Option.some.injEq] at htx'
        subst htx'
        obtain rfl := exec_createCredential (c := c) hexec
        -- The new row has the next `id` of the sequence.
        generalize hx : item.row d.seq.credentials = x
        have hid : x.id = d.seq.credentials := by
          rw [← hx]
          rfl
        have hdone : (done ++ [item]) ++ rest = items := by
          rw [List.append_assoc]
          exact hitems
        have hrows' : List.Forall₂ (fun (item : CredentialItem) c => c = item.row c.id)
            (done ++ [item]) (cs ++ [x]) :=
          List.rel_append hrows (.cons (by rw [hid, hx]) .nil)
        have hids' : (cs ++ [x]).Pairwise fun c c' => c.id < c'.id := by
          rw [List.pairwise_append]
          refine ⟨hids, List.pairwise_singleton _ _, fun c hc c' hc' => ?_⟩
          rw [List.mem_singleton.mp hc', hid]
          exact hbelow c hc
        have hbelow' : ∀ c ∈ cs ++ [x], c.id < d.seq.credentials + 1 := by
          intro c hc
          rcases List.mem_append.mp hc with hc | hc
          · have := hbelow c hc
            omega
          · rw [List.mem_singleton.mp hc, hid]
            exact Nat.lt_succ_self _
        have hopen : ∀ e : Effect Seqs Write Lock Credential, e.writes = [.createCredential x] →
            (d.grant i .tx ⟨now, cs.map .createCredential, false⟩ e).txs i .tx =
              some ⟨now, (cs ++ [x]).map .createCredential, false⟩ := by
          intro e he
          simp [Db.grant, Db.setTx, he]
        exact .inserting rest hdone hrows' hids' hbelow' (hopen _ rfl) hlog
      | queryFailed htx' => exact .failed hlog (by simp [Db.flag])
      | queryClosed htx' => exact .failed hlog (by simp [Db.flag])
  | failed hlog hfailed =>
    -- After a failure only the deferred rollback is left.
    cases hp
    cases hs.did with
    | rollback htx => exact .returnedError hlog hfailed
    | rollbackClosed htx => exact .returnedError hlog hfailed
  | stored hlog hall =>
    cases hp
    cases hs.did with
    | rollback htx => exact .returned hlog hall
    | rollbackClosed htx => exact .returned hlog hall
  | returnedError hlog hfailed => cases hp
  | returned hlog hall => cases hp
  | dead h => cases hp

/-- A step of the system leads an import to one of its points. -/
theorem ImportPoint.sys_step (hrun : start.run as = some s) {act : Action ι Choice}
    (hstep : s.step postgres act = some s') (h : ImportPoint start i items (s.progs i) s.db) :
    ImportPoint start i items (s'.progs i) s'.db := by
  have hinv := Start.inv hrun
  have hseq := (Start.holds_step (Start.holds hrun) hstep).1.seq.credentials
  rcases Sys.step_cases hstep with ⟨j, o, k, a, d, hp, ha, rfl⟩ | ⟨j, p, -, hp, rfl⟩ | ⟨n, -, rfl⟩
  · have hop := ha.opStep
    by_cases hij : i = j
    · subst hij
      simp only [Sys.resume, Function.update_self]
      exact h.step hinv hp hop
    · -- The steps of the others leave the transaction of the import as it is.
      have hframe : SlotFrame Lock.Same s.db d (i, .tx) :=
        OpStep.slotFrame postgres_lawful hinv.lock hop fun t _ he => hij (Prod.mk.inj he).1
      have hquiet : Quiet i s.db d := Outline.quiet_opStep hij hop
      simp only [Sys.resume, Function.update_of_ne hij]
      exact h.frame hframe.tx hquiet hseq
  · by_cases hij : i = j
    · subst hij
      simp only [Sys.resume, Function.update_self]
      exact .dead h.ownLog
    · simp only [Sys.resume, Function.update_of_ne hij]
      refine h.frame ?_ ⟨rfl, by simp [Db.closeAll, hij]⟩ hseq
      simp [Db.closeAll, hij]
  · exact h.frame rfl ⟨rfl, rfl⟩ hseq

/-- In every run, an import is at one of its points. -/
theorem Start.importPoint (h : start.run as = some s)
    (hcall : start.calls i = .importCredentials items) :
    ImportPoint start i items (s.progs i) s.db := by
  induction as using List.reverseRecOn generalizing s with
  | nil =>
    obtain rfl := Option.some.inj h
    have hbegin : start.state.progs i = some (callProgram start.rt (.importCredentials items)) := by
      rw [← hcall]
      rfl
    rw [hbegin]
    exact .begin rfl rfl
  | append_singleton as act ih =>
    have hrun := h
    unfold Start.run at h
    rw [Sys.run_snoc, Option.bind_eq_some_iff] at h
    obtain ⟨s₀, h₀, hstep⟩ := h
    exact ImportPoint.sys_step h₀ hstep (ih h₀)

end CdkSystem
