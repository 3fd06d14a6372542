import CdkSystem.Proof.FrontRules

/-!
# Runs of the front

In a run of requests, every command that succeeds is a commit, and nothing else changes the store.
What holds at the start of all runs and is kept by commands, by failures, by answers of the outside
world and by time holds in every state (`Start.traced_induction`). So every reading of the clock is
in the past (`Start.clock_le`), and the rows of administrators that were read are still there
(`Start.admin_mem`).
-/

namespace CdkSystem.Front

open RowLock Relational

variable {ι : Type} [DecidableEq ι] {start : Start ι} {as : List (Action ι Choice)} {s s' : State ι}
  {i : ι}

/-- The traces of all calls of the front, as they are recorded during a run. -/
abbrev CallTraces (ι : Type) := Traces ι Empty Query Env Query.Ans Env.Ans

variable {traces : CallTraces ι}

/-- A call asks for what its rule allows. -/
theorem Start.rule (h : Sys.Traced redis start.state as s traces) {o : TxOp Empty Query Env}
    {k : o.Ans Query.Ans Env.Ans → M Answer} (hp : s.progs i = some (.op o k)) :
    Rule start.config (start.calls i) (traces i) o := by
  have hbegin : ∀ p, start.state.progs i = some p → Prog.Follows (Rule start.config (start.calls i))
      (Returns (start.calls i)) [] p := by
    intro p hp
    obtain rfl : callProgram start.config (start.calls i) = p := Option.some.inj hp
    exact callProgram_follows start.config (start.calls i)
  exact (h.follows hbegin _ hp).1

/-- A call that has returned has been answered as its requests are. -/
theorem Start.returns (h : Sys.Traced redis start.state as s traces) {a : Answer}
    (hp : s.progs i = some (.ret a)) : Returns (start.calls i) (traces i) a := by
  have hbegin : ∀ p, start.state.progs i = some p → Prog.Follows (Rule start.config (start.calls i))
      (Returns (start.calls i)) [] p := by
    intro p hp
    obtain rfl : callProgram start.config (start.calls i) = p := Option.some.inj hp
    exact callProgram_follows start.config (start.calls i)
  exact h.follows hbegin _ hp

/-- A property of the store, of the commits, of the clock and of the traces that holds at the start,
and is kept by commands, by failures, by answers of the outside world and by time, holds in every
run. -/
theorem Start.traced_induction (h : Sys.Traced redis start.state as s traces)
    {P : Store → List (Commit ι Store) → Time → CallTraces ι → Prop}
    (begins : P start.state.db.tables [] start.clock fun _ => [])
    (command : ∀ (as : List (Action ι Choice)) (s : State ι) (traces : CallTraces ι) i q c e,
      Sys.Traced redis start.state as s traces → P s.db.tables s.db.log s.db.clock traces →
      Rule start.config (start.calls i) (traces i) (.auto q) →
      Query.exec ⟨s.db.clock, s.db.seq, s.db.tables, s.db.busy none⟩ q c = some (.ok e) →
      P (redis.applyAll s.db.tables e.writes)
        (s.db.log ++ [⟨i, s.db.clock, s.db.tables, redis.applyAll s.db.tables e.writes⟩]) s.db.clock
        (Function.update traces i (⟨.auto q, Except.ok e.ans⟩ :: traces i)))
    (failure : ∀ T log clock traces i q, P T log clock traces →
      P T log clock (Function.update traces i (⟨.auto q, Except.error .failed⟩ :: traces i)))
    (question : ∀ T log clock traces i e a c, P T log clock traces →
      Env.answer clock e c = some a →
      P T log clock (Function.update traces i (⟨.env e, a⟩ :: traces i)))
    (time : ∀ T log clock clock' traces, P T log clock traces → clock ≤ clock' →
      P T log clock' traces) : P s.db.tables s.db.log s.db.clock traces := by
  induction h with
  | start => exact begins
  -- A request has no transactions, so it asks for a command or for something outside.
  | @answer as s traces act i o k a d h hp ha ih =>
    have hrule := Start.rule h hp
    cases o with
    | begin t | query t q | commit t | rollback t => cases t
    | auto q =>
      cases ha.opStep.did with
      | auto c he hl => exact command as s traces i q c _ h ih hrule he
      | autoFailed => exact failure _ _ _ _ i q ih
    | env e =>
      cases ha.opStep.did with
      | env c he => exact question _ _ _ _ i e a c ih he
  | crash h hp ih => exact ih
  | tick n h ih => exact time _ _ _ _ _ ih (by simp)

/-- What is in the traces after an operation: what was there before, and the operation with its
answer. -/
theorem mem_update_cons {x y : Σ o, @TxOp.Ans Empty Query Env Query.Ans Env.Ans o} {j : ι} :
    x ∈ Function.update traces i (y :: traces i) j ↔ x ∈ traces j ∨ j = i ∧ x = y := by
  by_cases hij : j = i
  · subst hij
    rw [Function.update_self, List.mem_cons, or_comm]
    simp
  · rw [Function.update_of_ne hij]
    simp [hij]

/-- A reading of the clock is in the past. -/
theorem Start.clock_le (h : Sys.Traced redis start.state as s traces) {t : Time}
    (ht : ⟨.env .now, t⟩ ∈ traces i) : t ≤ s.db.clock := by
  have hall : ∀ i t, ⟨.env .now, t⟩ ∈ traces i → t ≤ s.db.clock := by
    refine Start.traced_induction h (P := fun _ _ clock traces =>
      ∀ i t, ⟨.env .now, t⟩ ∈ traces i → t ≤ clock) ?_ ?_ ?_ ?_ ?_
    · intro i t ht
      cases ht
    · intro as s traces j q c e _ ih _ _ i t ht
      rcases mem_update_cons.mp ht with ht | ⟨-, he⟩
      · exact ih i t ht
      · cases he
    · intro T log clock traces j q ih i t ht
      rcases mem_update_cons.mp ht with ht | ⟨-, he⟩
      · exact ih i t ht
      · cases he
    · intro T log clock traces j e a c ih ha i t ht
      rcases mem_update_cons.mp ht with ht | ⟨-, he⟩
      · exact ih i t ht
      · cases he
        exact (Option.some.inj ha).ge
    · intro T log clock clock' traces ih hle i t ht
      exact (ih i t ht).trans hle
  exact hall i t ht

/-- What a command leaves of the table `admins`: its rows, and perhaps one more. -/
theorem exec_admins {q : Query} {ctx : Ctx Store ℕ Empty} {c : Choice}
    {e : Effect ℕ Write Empty q.Ans} (h : q.exec ctx c = some (.ok e)) {admin : Admin}
    (hadmin : admin ∈ ctx.view.admins) : admin ∈ (redis.applyAll ctx.view e.writes).admins := by
  cases q with
  | slidingWindow key args =>
    cases h
    exact hadmin
  | setSession id session seconds =>
    rw [Query.exec] at h
    split_ifs at h
    · cases h
    · cases h
      exact hadmin
  | getSession id =>
    cases h
    exact hadmin
  | delSession id =>
    cases h
    exact hadmin
  | getAdminByUsername username =>
    cases h
    exact hadmin
  | createAdmin username passwordHash =>
    rw [Query.exec] at h
    split_ifs at h
    · cases h
    · cases h
      exact Table.mem_insert_of_mem hadmin

/-- The row of an administrator that was read is still there. -/
theorem Start.admin_mem (h : Sys.Traced redis start.state as s traces) {username : String}
    {admin : Admin}
    (hread : ⟨.auto (.getAdminByUsername username), Except.ok (some admin)⟩ ∈ traces i) :
    admin ∈ s.db.tables.admins ∧ admin.username = username := by
  -- The induction is about all readings of all requests at once.
  have hall : ∀ i username admin,
      ⟨.auto (.getAdminByUsername username), Except.ok (some admin)⟩ ∈ traces i →
        admin ∈ s.db.tables.admins ∧ admin.username = username := by
    refine Start.traced_induction h (P := fun T _ _ traces => ∀ i username admin,
      ⟨.auto (.getAdminByUsername username), Except.ok (some admin)⟩ ∈ traces i →
        admin ∈ T.admins ∧ admin.username = username) ?_ ?_ ?_ ?_ ?_
    · intro i username admin hread
      cases hread
    · intro as s traces j q c e _ ih _ hexec i username admin hread
      rcases mem_update_cons.mp hread with hread | ⟨-, he⟩
      · obtain ⟨hmem, hname⟩ := ih i username admin hread
        exact ⟨exec_admins hexec hmem, hname⟩
      · -- The reading is the one that was just made: the row is in the table.
        obtain ⟨rfl, hans⟩ : .getAdminByUsername username = q ∧
            HEq (Except.ok (some admin) : Except Failure (Option Admin))
              (Except.ok e.ans : Except Failure q.Ans) := by
          rw [Sigma.mk.injEq, TxOp.auto.injEq] at he
          exact he
        have hsame : some admin = e.ans := Except.ok.inj (eq_of_heq hans)
        have hfound : s.db.tables.admins.rows.find? (fun a => a.username = username) =
            some admin := by
          rw [Query.exec, Option.some.injEq, Except.ok.injEq] at hexec
          exact (congrArg Effect.ans hexec).trans hsame.symm
        have hmem : admin ∈ s.db.tables.admins := List.mem_of_find?_eq_some hfound
        exact ⟨exec_admins hexec hmem, by simpa using List.find?_some hfound⟩
    · intro T log clock traces j q ih i username admin hread
      rcases mem_update_cons.mp hread with hread | ⟨-, he⟩
      · exact ih i username admin hread
      · cases he
    · intro T log clock traces j e a c ih ha i username admin hread
      rcases mem_update_cons.mp hread with hread | ⟨-, he⟩
      · exact ih i username admin hread
      · cases he
    · intro T log clock clock' traces ih hle
      exact ih
  exact hall i username admin hread

end CdkSystem.Front
