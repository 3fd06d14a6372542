import CdkSystem.Proof.FrontRuns

/-!
# Who reaches the administration

Redis has a session exactly if a login with the password of an administrator has opened it and it
was not closed or opened again since (`Start.sessions_iff`). So a request on a route of the
administration reaches its handler exactly if its cookie names a session that is open and has not
run out when it is read, and if it carries the token of its cookie on a route that changes anything
(`admin_access`).
-/

namespace CdkSystem.Front

open RowLock Relational

variable {ι : Type} [DecidableEq ι] {start : Start ι} {as : List (Action ι Choice)} {s s' : State ι}
  {i : ι} {traces : CallTraces ι}

/-! ## Sessions -/

/-- A login with the password of an administrator opens a session, until a time. -/
structure Start.Opens (start : Start ι) (e : Commit ι Store) (id : String) (session : Session)
    (expireAt : ℤ) : Prop where
  login : ∃ route r req admin, start.calls e.caller = .request route r ∧ route.handler = .login ∧
    r.login = some req ∧ req.valid = true ∧ admin ∈ e.before.admins ∧
    admin.username = trimSpace req.username ∧ Password.verifyPassword start.config.argon2
      (bytesOfText req.password) admin.passwordHash.toList = .ok true ∧ SessionOf session admin
  lifetime : expireAt = millis e.time + start.config.sessionSeconds * 1000
  after : e.after = e.before.apply (.setSession id session expireAt)

/-- A logout with the cookie of a session closes it. -/
structure Start.Closes (start : Start ι) (e : Commit ι Store) (id : String) : Prop where
  logout : ∃ route r, start.calls e.caller = .request route r ∧ route.handler = .logout ∧
    r.cookie sessionCookieName = some id
  after : e.after = e.before.apply (.delSession id)

/-- A session was opened, and neither closed nor opened again since. -/
def Start.LastOpened (start : Start ι) (log : List (Commit ι Store)) (id : String)
    (entry : Session × ℤ) : Prop :=
  ∃ before e after, log = before ++ e :: after ∧ start.Opens e id entry.1 entry.2 ∧
    ∀ e' ∈ after, ¬ start.Closes e' id ∧ ∀ session expireAt, ¬ start.Opens e' id session expireAt

/-- A session is open and has not run out. -/
def Start.Live (start : Start ι) (log : List (Commit ι Store)) (now : ℤ) (id : String)
    (session : Session) : Prop :=
  ∃ expireAt, start.LastOpened log id (session, expireAt) ∧ now ≤ expireAt

omit [DecidableEq ι] in
/-- The session that is open after one more commit: it was opened by the commit, or the commit
leaves it. -/
theorem Start.lastOpened_snoc {log : List (Commit ι Store)} {e : Commit ι Store} {id : String}
    {entry : Session × ℤ} : start.LastOpened (log ++ [e]) id entry ↔
      start.Opens e id entry.1 entry.2 ∨ (¬ start.Closes e id ∧
        ∀ session expireAt, ¬ start.Opens e id session expireAt) ∧
          start.LastOpened log id entry := by
  constructor
  · rintro ⟨before, e', after, heq, hopens, hkept⟩
    rcases List.eq_nil_or_concat after with rfl | ⟨after', e'', rfl⟩
    · obtain ⟨-, he⟩ := List.append_inj' heq rfl
      obtain rfl : e = e' := by simpa using he
      exact Or.inl hopens
    · rw [List.concat_eq_append, ← List.cons_append, ← List.append_assoc] at heq
      obtain ⟨rfl, he⟩ := List.append_inj' heq rfl
      obtain rfl : e = e'' := by simpa using he
      refine Or.inr ⟨hkept e (by simp), before, e', after', rfl, hopens, fun x hx => hkept x ?_⟩
      simp [hx]
  · rintro (hopens | ⟨hkept, before, e', after, rfl, hopens, hafter⟩)
    · exact ⟨log, e, [], rfl, hopens, fun e' he' => by cases he'⟩
    · refine ⟨before, e', after ++ [e], by simp, hopens, fun x hx => ?_⟩
      rcases List.mem_append.mp hx with hx | hx
      · exact hafter x hx
      · rw [List.mem_singleton] at hx
        rw [hx]
        exact hkept

/-- What a command does to sessions: it stores one, deletes one, or leaves them all. -/
theorem exec_sessions {q : Query} {ctx : Ctx Store ℕ Empty} {c : Choice}
    {e : Effect ℕ Write Empty q.Ans} (h : q.exec ctx c = some (.ok e)) :
    (∃ id session seconds, q = .setSession id session seconds ∧ redis.applyAll ctx.view e.writes =
      ctx.view.apply (.setSession id session (millis ctx.now + seconds * 1000))) ∨
    (∃ id, q = .delSession id ∧ redis.applyAll ctx.view e.writes =
      ctx.view.apply (.delSession id)) ∨
    (redis.applyAll ctx.view e.writes).sessions = ctx.view.sessions := by
  cases q with
  | slidingWindow key args | getSession id | getAdminByUsername username =>
    cases h
    exact Or.inr (Or.inr rfl)
  | setSession id session seconds =>
    rw [Query.exec] at h
    split_ifs at h
    · cases h
    · cases h
      exact Or.inl ⟨id, session, seconds, rfl, rfl⟩
  | delSession id =>
    cases h
    exact Or.inr (Or.inl ⟨id, rfl, rfl⟩)
  | createAdmin username passwordHash =>
    rw [Query.exec] at h
    split_ifs at h
    · cases h
    · cases h
      exact Or.inr (Or.inr rfl)

/-- A commit leaves a session, unless it opens or closes it. -/
theorem Start.session_kept (h : Sys.Traced redis start.state as s traces) {q : Query} {c : Choice}
    {e : Effect ℕ Write Empty q.Ans}
    (hrule : Rule start.config (start.calls i) (traces i) (.auto q))
    (hexec : q.exec ⟨s.db.clock, s.db.seq, s.db.tables, s.db.busy none⟩ c = some (.ok e))
    {id : String}
    {new : Commit ι Store}
    (hnew : new = ⟨i, s.db.clock, s.db.tables, redis.applyAll s.db.tables e.writes⟩)
    (hcloses : ¬ start.Closes new id)
    (hopens : ∀ session expireAt, ¬ start.Opens new id session expireAt) :
    (redis.applyAll s.db.tables e.writes).sessions id = s.db.tables.sessions id := by
  -- Only logins and logouts write sessions, each that of one cookie.
  rcases exec_sessions hexec with ⟨id', session, seconds, rfl, hset⟩ | ⟨id', rfl, hdel⟩ | hsame
  · rw [hset, Store.sessions_setSession]
    refine Function.update_of_ne ?_ _ _
    rintro rfl
    obtain ⟨rfl, route, r, req, admin, hcall, hhandler, hbody, hread, hvalid, hpassword, hof⟩ :=
      hrule
    obtain ⟨hadmin, hname⟩ := Start.admin_mem h hread
    refine hopens session (millis s.db.clock + start.config.sessionSeconds * 1000) ?_
    subst hnew
    exact ⟨⟨route, r, req, admin, hcall, hhandler, hbody, hvalid, hadmin, hname, hpassword, hof⟩,
      rfl, hset⟩
  · rw [hdel, Store.sessions_delSession]
    refine Function.update_of_ne ?_ _ _
    rintro rfl
    obtain ⟨route, r, hcall, hhandler, hcookie⟩ := hrule
    refine hcloses ?_
    subst hnew
    exact ⟨⟨route, r, hcall, hhandler, hcookie⟩, hdel⟩
  · exact congrFun hsame id

/-- Redis has the entry of a session that was opened last. -/
theorem Start.sessions_iff (h : Sys.Traced redis start.state as s traces) (id : String)
    (entry : Session × ℤ) :
    s.db.tables.sessions id = some entry ↔ start.LastOpened s.db.log id entry := by
  have hall : ∀ id entry,
      s.db.tables.sessions id = some entry ↔ start.LastOpened s.db.log id entry := by
    refine Start.traced_induction h (P := fun T log _ _ =>
      ∀ id entry, T.sessions id = some entry ↔ start.LastOpened log id entry) ?_ ?_ ?_ ?_ ?_
    · intro id entry
      constructor
      · rintro ⟨⟩
      · rintro ⟨before, e, after, heq, -⟩
        simp at heq
    · intro as s traces j q c e ht ih hrule hexec id entry
      generalize hnew : (⟨j, s.db.clock, s.db.tables, redis.applyAll s.db.tables e.writes⟩ :
        Commit ι Store) = new
      -- After a login its session is there with the time at which it runs out.
      have hopened : ∀ session expireAt, start.Opens new id session expireAt →
          (redis.applyAll s.db.tables e.writes).sessions id = some (session, expireAt) := by
        intro session expireAt hopens
        have hafter := hopens.after
        rw [← hnew] at hafter
        change redis.applyAll s.db.tables e.writes = _ at hafter
        rw [hafter, Store.sessions_setSession, Function.update_self]
      rw [Start.lastOpened_snoc]
      constructor
      · intro hentry
        -- The session was opened by the new command, or it was there before and not closed since.
        by_cases hopens : ∃ session expireAt, start.Opens new id session expireAt
        · obtain ⟨session, expireAt, hopens⟩ := hopens
          have he := hopened session expireAt hopens
          rw [hentry, Option.some.injEq] at he
          exact Or.inl (he ▸ hopens)
        · have hnone : ∀ session expireAt, ¬ start.Opens new id session expireAt :=
            fun session expireAt h => hopens ⟨session, expireAt, h⟩
          have hcloses : ¬ start.Closes new id := by
            intro hcloses
            have hafter := hcloses.after
            rw [← hnew] at hafter
            change redis.applyAll s.db.tables e.writes = _ at hafter
            rw [hafter, Store.sessions_delSession, Function.update_self] at hentry
            cases hentry
          have hkept := Start.session_kept ht hrule hexec hnew.symm hcloses hnone
          exact Or.inr ⟨⟨hcloses, hnone⟩, (ih id entry).mp (hkept ▸ hentry)⟩
      · rintro (hopens | ⟨⟨hcloses, hnone⟩, hlast⟩)
        · exact hopened entry.1 entry.2 hopens
        · rw [Start.session_kept ht hrule hexec hnew.symm hcloses hnone]
          exact (ih id entry).mpr hlast
    · -- Failures, answers from outside and time leave the sessions and the log alone.
      exact fun T log clock traces j q ih => ih
    · exact fun T log clock traces j e a c ih _ => ih
    · exact fun T log clock clock' traces ih _ => ih
  exact hall id entry

/-- Redis answers with the session that is open and has not run out. -/
theorem Start.session?_eq_some_iff (h : Sys.Traced redis start.state as s traces) {now : ℤ}
    {id : String} {session : Session} :
    s.db.tables.session? now id = some session ↔ start.Live s.db.log now id session := by
  simp only [Store.session?, Option.map_eq_some_iff, Option.filter_eq_some_iff, decide_eq_true_eq]
  constructor
  · rintro ⟨⟨session', expireAt⟩, ⟨hentry, hle⟩, rfl⟩
    exact ⟨expireAt, (Start.sessions_iff h id _).mp hentry, hle⟩
  · rintro ⟨expireAt, hlast, hle⟩
    exact ⟨(session, expireAt), ⟨(Start.sessions_iff h id _).mpr hlast, hle⟩, rfl⟩

omit [DecidableEq ι] in
/-- The username of a session that is open is not empty. -/
theorem Start.Live.username_ne {log : List (Commit ι Store)} {now : ℤ} {id : String}
    {session : Session} (h : start.Live log now id session) : session.username ≠ "" := by
  obtain ⟨expireAt, ⟨before, e, after, -, hopens, -⟩, -⟩ := h
  obtain ⟨route, r, req, admin, -, -, -, hvalid, -, hname, -, hof⟩ := hopens.login
  rw [hof.username, hname]
  simp only [LoginRequest.valid, Bool.and_eq_true, decide_eq_true_eq] at hvalid
  exact hvalid.1.1.1

/-! ## Requests -/

/-- A request reads the session of its cookie at a time at which it is open and has not run out. -/
def Start.Authorized (start : Start ι) (as : List (Action ι Choice)) (i : ι) (r : Request)
    (session : Session) : Prop :=
  ∃ id as₁ c as₂ s₁ k, r.cookie sessionCookieName = some id ∧ as = as₁ ++ .exec i c :: as₂ ∧
    start.run as₁ = some s₁ ∧ s₁.progs i = some (.op (.auto (.getSession id)) k) ∧
    start.Live s₁.db.log (millis s₁.db.clock) id session

/-- A request carries the token of its cookie. -/
def Request.HasToken (r : Request) : Prop := r.cookie csrfCookieName = some r.csrfHeader

/-- An answer that is a refusal. -/
def Answer.isRefusal : Answer → Bool
  | .reply r => 400 ≤ r.status
  | _ => false

/-- What a request that reads a session gets from Redis. -/
theorem Start.perform_getSession {d d' : Db ι Empty Store ℕ Write Empty} {id : String} {c : Choice}
    {a : Except Failure (Option Session)}
    (h : d.perform redis i (.auto (.getSession id)) c = some (a, d')) :
    a = .ok (d.tables.session? (millis d.clock) id) := by
  simp only [Db.perform] at h
  split_ifs at h
  have hexec : redis.exec ⟨d.clock, d.seq, d.tables, d.busy none⟩ (.getSession id) c =
      some (.ok ⟨d.tables.session? (millis d.clock) id, [], [], d.seq⟩) := rfl
  rw [hexec] at h
  simp only [List.any_nil, Bool.false_eq_true, if_false, Option.some.injEq, Prod.mk.injEq] at h
  exact h.1.symm

/-- An authorized request gets the session from Redis. -/
theorem Start.Authorized.mem_trace {r : Request} {session : Session}
    (ha : start.Authorized as i r session) (h : Sys.Traced redis start.state as s traces) :
    ∃ id, r.cookie sessionCookieName = some id ∧
      ⟨.auto (.getSession id), Except.ok (some session)⟩ ∈ traces i := by
  obtain ⟨id, as₁, c, as₂, s₁, k, hcookie, has, hs₁, hp, hlive⟩ := ha
  refine ⟨id, hcookie, ?_⟩
  -- The step is one of the run, so Redis has answered.
  obtain ⟨s₂, hs₂⟩ : ∃ s₂, s₁.step redis (.exec i c) = some s₂ := by
    have hrun : start.state.run redis (as₁ ++ ([.exec i c] ++ as₂)) = some s := has ▸ h.run_eq
    have hrun₁ : start.state.run redis as₁ = some s₁ := hs₁
    rw [Sys.run_append, hrun₁, Option.bind_some, Sys.run_append, Option.bind_eq_some_iff] at hrun
    obtain ⟨s₂, hs₂, -⟩ := hrun
    exact ⟨s₂, by rwa [← List.nil_append [Action.exec i c], Sys.run_snoc] at hs₂⟩
  simp only [Sys.step, hp, Option.map_eq_some_iff] at hs₂
  obtain ⟨⟨a, d⟩, hperform, -⟩ := hs₂
  obtain ⟨traces₁, ht₁⟩ := Sys.exists_traced hs₁
  have hans := Start.perform_getSession hperform
  rw [(Start.session?_eq_some_iff ht₁).mpr hlive] at hans
  subst hans
  exact h.mem_of_exec has hs₁ hp hperform

/-- A session that a request got from Redis has authorized it. -/
theorem Start.authorized_of_mem (h : Sys.Traced redis start.state as s traces) {r : Request}
    {id : String} {session : Session} (hcookie : r.cookie sessionCookieName = some id)
    (hmem : ⟨.auto (.getSession id), Except.ok (some session)⟩ ∈ traces i) :
    start.Authorized as i r session := by
  obtain ⟨as₁, act, as₂, s₁, k, d, has, hs₁, hp, ha⟩ := h.happened hmem
  cases ha with
  | fail hfail =>
    simp only [Db.fail, Option.some.injEq, Prod.mk.injEq] at hfail
    cases hfail.1
  | @exec c hperform =>
    obtain ⟨traces₁, ht₁⟩ := Sys.exists_traced hs₁
    have hans := Start.perform_getSession hperform
    refine ⟨id, as₁, c, as₂, s₁, k, hcookie, has, hs₁, hp, ?_⟩
    exact (Start.session?_eq_some_iff ht₁).mp (Except.ok.inj hans).symm

/-- What is behind the check of the token is answered exactly if the token is right. -/
theorem isRefusal_checkCSRF (method : Method) (r : Request) {next : Answer}
    (hnext : next.isRefusal = false) :
    (checkCSRF method.isMutating method r next).isRefusal = false ↔
      (method.isMutating = true → r.HasToken) := by
  unfold checkCSRF Request.HasToken verifyCSRFToken
  rw [Bool.and_self]
  by_cases hmutating : method.isMutating = true
  · rw [if_pos hmutating]
    cases hcookie : r.cookie csrfCookieName with
    | none => simp [hmutating, Answer.isRefusal, refuse, respondError]
    | some token =>
      by_cases htoken : r.csrfHeader = token
      · simp [htoken, hnext]
      · have hne : token ≠ r.csrfHeader := fun he => htoken he.symm
        simp [htoken, hne, hmutating, Answer.isRefusal, refuse, respondError]
  · simp [hmutating, hnext]

/-- In every run of any requests, interleaved command by command, a request on a route of the
administration other than the login and the logout is not refused exactly if its cookie names a
session that is open and has not run out when the request reads it, where sessions are opened only
by logins with the password of an administrator, until their lifetime after it, and closed by
logouts with their cookie; and if it carries the token of its cookie, on a route whose method
changes anything. Then it is answered for the administrator of the session. -/
theorem admin_access (h : start.run as = some s) {route : Route} {r : Request}
    (hcall : start.calls i = .request route r) (hadmin : route.isAdmin = true)
    (hlogin : route.handler ≠ .login) (hlogout : route.handler ≠ .logout) {a : Answer}
    (hend : s.answer? i = some a) :
    (a.isRefusal = false ↔ (route.method.isMutating = true → r.HasToken) ∧
      ∃ session, start.Authorized as i r session) ∧
    ∀ session, start.Authorized as i r session → a.isRefusal = false → a = serve route session := by
  obtain ⟨traces, ht⟩ := Sys.exists_traced h
  have hroute : route.requireCSRF = some route.method.isMutating := by
    rw [guarded_routes route (start.routed i route r hcall), if_pos ⟨hadmin, hlogin, hlogout⟩]
  have hserve : ∀ session, start.Authorized as i r session →
      (serve route session).isRefusal = false := by
    rintro session ⟨id, as₁, c, as₂, s₁, k, -, -, -, -, hlive⟩
    unfold serve
    split_ifs with hme hname
    · exact absurd hname hlive.username_ne
    · rfl
    · rfl
  -- Without an authorization the request has to be refused.
  have hrefused : a.isRefusal = true → (∀ session, ¬ start.Authorized as i r session) →
      (a.isRefusal = false ↔ (route.method.isMutating = true → r.HasToken) ∧
        ∃ session, start.Authorized as i r session) ∧
      ∀ session, start.Authorized as i r session → a.isRefusal = false →
      a = serve route session := by
    intro htrue hnone
    refine ⟨⟨fun hfalse => ?_, fun hsome => ?_⟩, fun session ha => absurd ha (hnone session)⟩
    · rw [htrue] at hfalse
      cases hfalse
    · obtain ⟨-, session, ha⟩ := hsome
      exact absurd ha (hnone session)
  rcases Start.returns ht (State.progs_of_answer? hend) route r _ hcall hroute with
    ⟨hcookie, -, rfl⟩ |
    ⟨id, hcookie, ⟨htrace, rfl⟩ | ⟨htrace, rfl⟩ | ⟨session, htrace, rfl⟩⟩
  · refine hrefused rfl fun session ha => ?_
    obtain ⟨id, -, -, -, -, -, hcookie', -⟩ := ha
    rw [hcookie] at hcookie'
    cases hcookie'
  · refine hrefused rfl fun session ha => ?_
    obtain ⟨id', -, hmem⟩ := ha.mem_trace ht
    rw [htrace, List.mem_singleton] at hmem
    cases hmem
  · refine hrefused rfl fun session ha => ?_
    obtain ⟨id', -, hmem⟩ := ha.mem_trace ht
    rw [htrace, List.mem_singleton] at hmem
    cases hmem
  · have hauthorized : start.Authorized as i r session :=
      Start.authorized_of_mem ht hcookie (htrace ▸ List.mem_singleton_self _)
    have honly : ∀ session', start.Authorized as i r session' → session' = session := by
      intro session' ha
      obtain ⟨id', -, hmem⟩ := ha.mem_trace ht
      rw [htrace, List.mem_singleton] at hmem
      cases hmem
      rfl
    have hiff := isRefusal_checkCSRF route.method r (hserve session hauthorized)
    refine ⟨⟨fun hfalse => ⟨hiff.mp hfalse, session, hauthorized⟩,
      fun htoken => hiff.mpr htoken.1⟩, fun session' ha hfalse => ?_⟩
    obtain rfl := honly session' ha
    -- The token is right, so the check goes on.
    have htoken := hiff.mp hfalse
    unfold checkCSRF verifyCSRFToken
    rw [Bool.and_self]
    split_ifs with hmutating
    · have hcsrf : r.cookie csrfCookieName = some r.csrfHeader := htoken hmutating
      simp [hcsrf]
    · rfl

/-- A key derivation that repeats the password up to the length of the key. -/
def repeatKey : Argon2 where
  idKey := fun password _ _ _ _ keyLen =>
    (List.range keyLen.toNat).map fun i => password.getD (i % password.length) 0
  length_idKey := by simp

/-- A request without anything. -/
def Request.empty : Request := ⟨"10.0.0.1", [], "", "", none, none, none⟩

/-- A text for so many random bytes. -/
def randomText (bytes : ℕ) (c : Char) : String := String.ofList (List.replicate (2 * bytes) c)

/-- An administrator is created, logs in, creates a batch, once with the token and once without, and
logs out. -/
def firstBatch : Start (Fin 5) where
  config := ⟨⟨60000, 10⟩, 3600, repeatKey, .simple⟩
  calls := fun
    | 0 => .adminCreate "root" "password" ⟨List.replicate 16 7, rfl⟩
    | 1 => .request ⟨.post, "/api/admin/login", none, .login⟩
      { Request.empty with login := some ⟨"root", "password"⟩ }
    | 2 => .request ⟨.post, "/api/admin/batches", some true, .createBatch⟩
      { Request.empty with
        cookies := [(sessionCookieName, randomText 32 'a'), (csrfCookieName, randomText 32 'b')]
        csrfHeader := randomText 32 'b' }
    | 3 => .request ⟨.post, "/api/admin/batches", some true, .createBatch⟩
      { Request.empty with cookies := [(sessionCookieName, randomText 32 'a')] }
    | 4 => .request ⟨.post, "/api/admin/logout", none, .logout⟩
      { Request.empty with cookies := [(sessionCookieName, randomText 32 'a')] }
  routed := by
    intro i route r hcall
    fin_cases i <;> cases hcall <;> decide
  admins := ∅
  nextAdmin := 1
  below := fun a ha => by cases ha
  clock := 0

/-- One call after the other. -/
def firstBatchRun : List (Action (Fin 5) Choice) :=
  let choice := fun text => (⟨text, false, .error .database, .error .database⟩ : Choice)
  .exec 0 (choice "") :: [.exec 1 (choice ""), .exec 1 (choice (randomText 8 '0')),
    .exec 1 (choice ""), .exec 1 (choice ""), .exec 1 (choice (randomText 32 'b')),
    .exec 1 (choice ""), .exec 1 (choice (randomText 32 'a')), .exec 1 (choice ""),
    .exec 2 (choice ""), .exec 3 (choice ""), .exec 4 (choice "")]

/-- The request with the token is not refused, and the one without is. -/
theorem firstBatchRun_answers : (firstBatch.run firstBatchRun).map (fun s =>
    ((s.answer? 2).map Answer.isRefusal, (s.answer? 3).map Answer.isRefusal)) =
      some (some false, some true) := by
  decide +kernel

/-- The request with the token is authorized by the session of the login. -/
theorem admin_access_first : ∃ s a session, firstBatch.run firstBatchRun = some s ∧
    s.answer? 2 = some a ∧ firstBatch.Authorized firstBatchRun 2
      { Request.empty with
        cookies := [(sessionCookieName, randomText 32 'a'), (csrfCookieName, randomText 32 'b')]
        csrfHeader := randomText 32 'b' } session ∧
    a = serve ⟨.post, "/api/admin/batches", some true, .createBatch⟩ session := by
  obtain ⟨s, hs, hanswers⟩ := Option.map_eq_some_iff.mp firstBatchRun_answers
  rw [Prod.mk.injEq] at hanswers
  obtain ⟨a, ha, hfalse⟩ := Option.map_eq_some_iff.mp hanswers.1
  obtain ⟨hiff, hserved⟩ := admin_access hs (i := 2) rfl (by decide) (by decide) (by decide) ha
  obtain ⟨-, session, hauthorized⟩ := hiff.mp hfalse
  exact ⟨s, a, session, hs, ha, hauthorized, hserved session hauthorized hfalse⟩

end CdkSystem.Front
