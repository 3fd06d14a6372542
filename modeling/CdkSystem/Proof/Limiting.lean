import CdkSystem.Proof.FrontRuns

/-!
# The script of the limiter in runs

What the script does to the window of a key when it runs for one request (`runScript_admits`,
`runScript_refuses`, `runScript_full`), and which calls of a run it has admitted: what is in their
traces was performed at some step (`Start.exec_of_mem`), with arguments that were read from the
clock before (`Start.oneRequest`).

The script is one command, so nothing happens between its reading of the window and its change of
it. What differs between runs is only when it is executed, and whether the key of the window was
dropped before.
-/

namespace CdkSystem.Front

open RowLock Relational

/-! ## The script -/

section Script

variable {l : Limiter} {window : RedisKey} {args : WindowArgs} {now : ℤ}

/-- The arguments of the script for one request. -/
structure OneRequest (l : Limiter) (args : WindowArgs) : Prop where
  windowStart : args.windowStart = args.now - l.windowMillis
  maxRequests : args.maxRequests = l.maxReqs
  ttl : args.ttl = l.windowMillis
  requested : args.requested = 1
  members : ∃ member, args.members = [member]

/-- What the script leaves of a window when it admits a request, and what it needs for it. -/
theorem runScript_admits (hone : OneRequest l args) {member : String}
    (hmember : args.members = [member]) (hadmits : (runScript now window args).1 = 1) :
    zCard (zRemRangeByScore window.set args.windowStart) + 1 ≤ l.maxReqs ∧
      (runScript now window args).2 =
        ⟨zAdd (zRemRangeByScore window.set args.windowStart) (args.now + (1 : ℕ) / 1000000) member,
          some (now + l.windowMillis)⟩ := by
  unfold runScript slidingWindowScript at hadmits ⊢
  rw [hone.requested, hone.maxRequests] at hadmits ⊢
  simp only at hadmits ⊢
  split_ifs at hadmits ⊢ with hlimit hroom
  · cases hadmits
  · cases hadmits
  · refine ⟨by omega, ?_⟩
    rw [hone.ttl, hmember]
    rfl

/-- A refused request leaves the window without what is too old. -/
theorem runScript_refuses (hrefuses : (runScript now window args).1 ≠ 1) :
    (runScript now window args).2 =
      { window with set := zRemRangeByScore window.set args.windowStart } := by
  have hsame : (runScript now window args).2 = (slidingWindowScript window args).2 :=
    if_neg hrefuses
  rw [hsame]
  change (slidingWindowScript window args).1 ≠ 1 at hrefuses
  unfold slidingWindowScript at hrefuses ⊢
  simp only at hrefuses ⊢
  split_ifs at hrefuses ⊢ with hlimit hroom
  · rfl
  · rfl
  · exact absurd rfl hrefuses

/-- The script refuses one request only if the window is full. -/
theorem runScript_full (hone : OneRequest l args) (hpositive : 0 < l.maxReqs)
    (hrefuses : (runScript now window args).1 ≠ 1) :
    l.maxReqs ≤ zCard (zRemRangeByScore window.set args.windowStart) := by
  change (slidingWindowScript window args).1 ≠ 1 at hrefuses
  unfold slidingWindowScript at hrefuses
  rw [hone.requested, hone.maxRequests] at hrefuses
  simp only at hrefuses
  split_ifs at hrefuses with hlimit hroom
  · omega
  · omega
  · exact absurd rfl hrefuses

end Script

/-! ## Runs -/

variable {ι : Type} [DecidableEq ι] {start : Start ι} {as : List (Action ι Choice)} {s s' : State ι}
  {i : ι} {traces : CallTraces ι} {key : String} {args : WindowArgs}

/-- The script on a key has admitted a call with these arguments. -/
def AdmittedWith (trace : CallTrace) (key : String) (args : WindowArgs) : Prop :=
  ⟨.auto (.slidingWindow key args), Except.ok (1 : ℤ)⟩ ∈ trace

/-- At a step of a run, from a state, a call asks for an operation. -/
def Start.Asks (start : Start ι) (as : List (Action ι Choice)) (i : ι) (s₁ : State ι)
    (o : TxOp Empty Query Env) : Prop :=
  ∃ as₁ c as₂ k, as = as₁ ++ .exec i c :: as₂ ∧ start.run as₁ = some s₁ ∧
    s₁.progs i = some (.op o k)

/-- What has been admitted after the script was run on the key: what was before, and perhaps its
call. -/
theorem admittedWith_update {j : ι} {result : ℤ} {args' : WindowArgs}
    (h : AdmittedWith (Function.update traces j
      (⟨.auto (.slidingWindow key args'), Except.ok result⟩ :: traces j) i) key args) :
    AdmittedWith (traces i) key args ∨ i = j ∧ args = args' ∧ result = 1 := by
  rcases mem_update_cons.mp h with h | ⟨hij, he⟩
  · exact Or.inl h
  · refine Or.inr ⟨hij, ?_⟩
    cases he
    exact ⟨rfl, rfl⟩

/-- What a call asks for in a run, it asks for in a longer one. -/
theorem Start.Asks.snoc {act : Action ι Choice} {s₁ : State ι} {o : TxOp Empty Query Env}
    (h : start.Asks as i s₁ o) : start.Asks (as ++ [act]) i s₁ o := by
  obtain ⟨as₁, c, as₂, k, has, hs₁, hp⟩ := h
  exact ⟨as₁, c, as₂ ++ [act], k, by simp [has], hs₁, hp⟩

/-- What has been answered without a failure was performed at some step. -/
theorem Start.exec_of_mem (h : Sys.Traced redis start.state as s traces) {q : Query}
    {answer : q.Ans}
    (hmem : ⟨.auto q, Except.ok answer⟩ ∈ traces i) : ∃ as₁ c as₂ s₁ k d,
      as = as₁ ++ .exec i c :: as₂ ∧ start.run as₁ = some s₁ ∧ s₁.progs i = some (.op (.auto q) k) ∧
      s₁.db.perform redis i (.auto q) c = some (.ok answer, d) := by
  obtain ⟨as₁, act, as₂, s₁, k, d, has, hs₁, hp, ha⟩ := h.happened hmem
  cases ha with
  | fail hfail =>
    simp only [Db.fail, Option.some.injEq, Prod.mk.injEq] at hfail
    cases hfail.1
  | @exec c hperform => exact ⟨as₁, c, as₂, s₁, k, d, has, hs₁, hp, hperform⟩

/-- The arguments with which a call runs the script. -/
theorem Start.oneRequest (h : Sys.Traced redis start.state as s traces) {args : WindowArgs}
    (hrule : Rule start.config (start.calls i) (traces i) (.auto (.slidingWindow key args))) :
    OneRequest start.config.limiter args ∧ args.now ≤ millis s.db.clock := by
  obtain ⟨-, hargs⟩ := hrule
  obtain ⟨t, ht, hnow⟩ := hargs.read
  refine ⟨⟨hargs.windowStart, hargs.maxRequests, hargs.ttl, hargs.requested, hargs.members⟩, ?_⟩
  rw [hnow]
  exact Int.ediv_le_ediv (by norm_num) (Start.clock_le h ht)

/-- What the script does. -/
theorem exec_slidingWindow {ctx : Ctx Store ℕ Empty} {c : Choice} {e : Effect ℕ Write Empty ℤ}
    (h : Query.exec ctx (.slidingWindow key args) c = some (.ok e)) :
    e.ans = (runScript (millis ctx.now)
        ((ctx.view.windows key).drop (millis ctx.now) c.dropped) args).1 ∧
      (redis.applyAll ctx.view e.writes).windows = Function.update ctx.view.windows key
        (runScript (millis ctx.now)
          ((ctx.view.windows key).drop (millis ctx.now) c.dropped) args).2 := by
  cases h
  exact ⟨rfl, Store.windows_setWindow _ _ _⟩

/-- What is not the script on a key leaves its window. -/
theorem exec_windows {q : Query} {ctx : Ctx Store ℕ Empty} {c : Choice}
    {e : Effect ℕ Write Empty q.Ans} (h : q.exec ctx c = some (.ok e))
    (hother : ∀ args, q ≠ .slidingWindow key args) :
    (redis.applyAll ctx.view e.writes).windows key = ctx.view.windows key := by
  cases q with
  | slidingWindow key' args =>
    obtain ⟨-, hwindows⟩ := exec_slidingWindow h
    rw [hwindows]
    refine Function.update_of_ne ?_ _ _
    rintro rfl
    exact hother args rfl
  | getSession id | getAdminByUsername username | delSession id =>
    cases h
    rfl
  | setSession id session seconds =>
    rw [Query.exec] at h
    split_ifs at h
    · cases h
    · cases h
      rfl
  | createAdmin username passwordHash =>
    rw [Query.exec] at h
    split_ifs at h
    · cases h
    · cases h
      rfl

/-- What the script answers. -/
theorem Start.perform_slidingWindow {d d' : Db ι Empty Store ℕ Write Empty} {args : WindowArgs}
    {c : Choice} {answer : Except Failure ℤ}
    (h : d.perform redis i (.auto (.slidingWindow key args)) c = some (answer, d')) :
    answer = .ok (runScript (millis d.clock)
      ((d.tables.windows key).drop (millis d.clock) c.dropped) args).1 := by
  simp only [Db.perform] at h
  split_ifs at h
  have hexec : redis.exec ⟨d.clock, d.seq, d.tables, d.busy none⟩ (.slidingWindow key args) c =
      some (.ok ⟨(runScript (millis d.clock)
        ((d.tables.windows key).drop (millis d.clock) c.dropped) args).1, [.setWindow key
          (runScript (millis d.clock)
            ((d.tables.windows key).drop (millis d.clock) c.dropped) args).2], [], d.seq⟩) := rfl
  rw [hexec] at h
  simp only [List.any_nil, Bool.false_eq_true, if_false, Option.some.injEq, Prod.mk.injEq] at h
  exact h.1.symm

end CdkSystem.Front
