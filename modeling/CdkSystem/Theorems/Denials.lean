import CdkSystem.Theorems.Admission

/-!
# When the limiter denies a request

A request is answered that there are too many of them only after the script on one of its keys has
not admitted it (`callProgram_denying`). Every member of a window is that of an admitted call, with
the time of its reading (`Start.accounted`), so the script refuses a request only if as many as the
limit were admitted within a window before it (`Accounted.full`, `denied_only_when_full`).

The members of a window were all put there by the script, one for each request that it has admitted,
so their number is counted by the traces of the calls. A script that refuses has first removed the
members that are too old and then found the window full. Commands can fail, and a request is also
refused then; the result is about requests none of whose commands has failed.
-/

namespace CdkSystem.Front

open RowLock Relational

/-! ## Answers -/

section Answers

variable {cfg : Config} {call : Call} {trace : CallTrace} {route : Route} {r : Request}

/-- The answer to a request that the limiter has not let pass. -/
def tooManyRequests : Answer := refuse 429 "请求过于频繁，请稍后再试"

/-- A request that the limiter has not let pass has run the script on one of its keys in vain. -/
def Denies (cfg : Config) (call : Call) (trace : CallTrace) (a : Answer) : Prop :=
  a = tooManyRequests → ∃ key ∈ call.limits cfg, ∃ args answer,
    ⟨.auto (.slidingWindow ("ratelimit:" ++ key) args), answer⟩ ∈ trace ∧ answer ≠ Except.ok (1 : ℤ)

/-- A program denies requests after a trace only so. -/
abbrev Denying {α : Type} (trace : CallTrace) (post : CallTrace → α → Prop) (p : M α) : Prop :=
  Prog.Follows (fun _ _ => True) post trace p

/-- An answer that is not the limiter's denies nothing. -/
theorem denies_of_ne {a : Answer} (h : a ≠ tooManyRequests) : Denies cfg call trace a :=
  fun heq => absurd heq h

/-- A refusal with another status is not the limiter's. -/
theorem denies_refuse {status : ℕ} {message : String} (h : status ≠ 429) :
    Denies cfg call trace (refuse status message) := by
  intro heq
  rw [refuse, tooManyRequests, refuse, Answer.reply.injEq] at heq
  exact absurd (congrArg Reply.status heq) h

/-- The limiter denies a call only after the script, and what follows a permission denies nothing.
-/
theorem allow_denying {α : Type} {post : CallTrace → α → Prop} {l : Limiter} {key : String}
    {K : Bool → M α} (hwindow : 0 < l.windowMillis) (hmax : 0 < l.maxReqs)
    (hdeny : ∀ trace' args answer,
      ⟨.auto (.slidingWindow ("ratelimit:" ++ key) args), answer⟩ ∈ trace' →
      answer ≠ Except.ok (1 : ℤ) → Denying trace' post (K false))
    (hpermit : ∀ trace', Denying trace' post (K true)) :
    Denying trace post (allow l key >>= K) := by
  unfold allow allowN
  refine ⟨trivial, fun t => ?_⟩
  split_ifs with hpositive
  · omega
  · refine ⟨trivial, fun text => ⟨trivial, fun answer => ?_⟩⟩
    cases answer with
    | error f => exact hdeny _ _ _ List.mem_cons_self (by rintro ⟨⟩)
    | ok result =>
      change Denying _ post (K (decide (result = 1)))
      by_cases hone : result = 1
      · rw [decide_eq_true hone]
        exact hpermit _
      · rw [decide_eq_false hone]
        refine hdeny _ _ _ List.mem_cons_self fun heq => hone ?_
        exact Except.ok.inj heq

/-- `createSession` denies nothing: its only refusal is about the session. -/
theorem createSession_denying {admin : Admin} :
    Denying trace (Denies cfg call) (createSession cfg admin) := by
  refine ⟨trivial, fun csrf => ⟨trivial, fun t => ⟨trivial, fun id => ⟨trivial, fun answer => ?_⟩⟩⟩⟩
  cases answer with
  | error f => exact denies_refuse (by decide)
  | ok u => exact denies_of_ne (by rintro ⟨⟩)

/-- What comes after the limiter in `Login` denies nothing. -/
theorem checkPassword_denying {username password : String} :
    Denying trace (Denies cfg call) (checkPassword cfg username password) := by
  refine ⟨trivial, fun answer => ?_⟩
  rcases answer with _ | _ | admin
  · exact denies_refuse (by decide)
  · exact denies_refuse (by decide)
  · dsimp only [Prog.bind]
    split
    · exact denies_refuse (by decide)
    · exact denies_refuse (by decide)
    · exact denies_refuse (by decide)
    · exact createSession_denying

/-- The answers of the service are others. -/
theorem denies_redeemAnswer (answer : Except GoError RedeemResponse) :
    Denies cfg call trace (redeemAnswer answer) := by
  unfold redeemAnswer
  split
  · exact denies_refuse (by decide)
  · exact denies_refuse (by decide)
  · exact denies_of_ne (by rintro ⟨⟩)

/-- The answers of the service to a batch are others. -/
theorem denies_batchRedeemAnswer (answer : Except GoError BatchRedeemResponse) :
    Denies cfg call trace (batchRedeemAnswer answer) := by
  unfold batchRedeemAnswer
  split
  · exact denies_refuse (by decide)
  · exact denies_refuse (by decide)
  · exact denies_of_ne (by rintro ⟨⟩)

/-- The limiter on the user denies a call only after the script, if it is one of the call's keys. -/
theorem allowUser_denying {α : Type} {post : CallTrace → α → Prop} {label userID : String}
    {K : Bool → M α} (hwindow : 0 < cfg.limiter.windowMillis) (hmax : 0 < cfg.limiter.maxReqs)
    (hdeny : userID ≠ "" → ∀ trace' args answer,
      ⟨.auto (.slidingWindow ("ratelimit:" ++ (label ++ normalizeUserKey cfg.runtime userID)) args),
        answer⟩ ∈ trace' → answer ≠ Except.ok (1 : ℤ) → Denying trace' post (K false))
    (hpermit : ∀ trace', Denying trace' post (K true)) :
    Denying trace post (allowUser cfg label userID >>= K) := by
  unfold allowUser
  split_ifs with huser
  · exact hpermit _
  · exact allow_denying hwindow hmax (hdeny huser) hpermit

/-- `Login` denies requests only after the script. -/
theorem login_denying (hwindow : 0 < cfg.limiter.windowMillis) (hmax : 0 < cfg.limiter.maxReqs)
    (hcall : call = .request route r) (hhandler : route.handler = .login) :
    Denying [] (Denies cfg call) (login cfg r) := by
  have hkey : "login:ip:" ++ clientIP r ∈ call.limits cfg := by
    simp [hcall, Call.limits, hhandler, Request.limits]
  unfold login
  split
  · exact denies_refuse (by decide)
  · split_ifs
    · exact denies_refuse (by decide)
    · refine allow_denying hwindow hmax (fun trace' args answer hmem hne => ?_) fun trace' => ?_
      · exact fun _ => ⟨_, hkey, args, answer, hmem, hne⟩
      · exact checkPassword_denying

/-- `RedeemHandler.Redeem` denies requests only after the script. -/
theorem redeem_denying (hwindow : 0 < cfg.limiter.windowMillis) (hmax : 0 < cfg.limiter.maxReqs)
    (hcall : call = .request route r) (hhandler : route.handler = .redeem) :
    Denying [] (Denies cfg call) (redeem cfg r) := by
  unfold redeem
  split
  · exact denies_refuse (by decide)
  · rename_i userID code hbody
    have hip : "redeem:ip:" ++ clientIP r ∈ call.limits cfg := by
      simp [hcall, Call.limits, hhandler, Request.limits]
    have huser : userID ≠ "" →
        "redeem:user:" ++ normalizeUserKey cfg.runtime userID ∈ call.limits cfg := by
      intro hne
      simp [hcall, Call.limits, hhandler, Request.limits, hbody, Option.filter, hne]
    refine allow_denying hwindow hmax (fun trace' args answer hmem hne => ?_) fun trace' => ?_
    · exact fun _ => ⟨_, hip, args, answer, hmem, hne⟩
    · refine allowUser_denying hwindow hmax
        (fun hne' trace' args answer hmem hne => ?_) fun trace' => ?_
      · exact fun _ => ⟨_, huser hne', args, answer, hmem, hne⟩
      · exact ⟨trivial, fun answer => denies_redeemAnswer answer⟩

/-- `RedeemHandler.BatchRedeem` denies requests only after the script. -/
theorem batchRedeem_denying (hwindow : 0 < cfg.limiter.windowMillis)
    (hmax : 0 < cfg.limiter.maxReqs) (hcall : call = .request route r)
    (hhandler : route.handler = .batchRedeem) :
    Denying [] (Denies cfg call) (batchRedeem cfg r) := by
  unfold batchRedeem
  split
  · exact denies_refuse (by decide)
  · rename_i userID codes hbody
    have hip : "redeem:batch:ip:" ++ clientIP r ∈ call.limits cfg := by
      simp [hcall, Call.limits, hhandler, Request.limits]
    have huser : userID ≠ "" →
        "redeem:batch:user:" ++ normalizeUserKey cfg.runtime userID ∈ call.limits cfg := by
      intro hne
      simp [hcall, Call.limits, hhandler, Request.limits, hbody, Option.filter, hne]
    split_ifs
    · exact denies_refuse (by decide)
    refine allow_denying hwindow hmax (fun trace' args answer hmem hne => ?_) fun trace' => ?_
    · exact fun _ => ⟨_, hip, args, answer, hmem, hne⟩
    · refine allowUser_denying hwindow hmax
        (fun hne' trace' args answer hmem hne => ?_) fun trace' => ?_
      · exact fun _ => ⟨_, huser hne', args, answer, hmem, hne⟩
      · exact ⟨trivial, fun answer => denies_batchRedeemAnswer answer⟩

/-- `AdminAuthMiddleware` denies nothing: its refusals are about the session and the token. -/
theorem denies_checkCSRF {requireCSRF : Bool} {method : Method} {session : Session} :
    Denies cfg call trace (checkCSRF requireCSRF method r (serve route session)) := by
  have hserve : Denies cfg call trace (serve route session) := by
    unfold serve
    split_ifs
    · exact denies_refuse (by decide)
    · exact denies_of_ne (by rintro ⟨⟩)
    · exact denies_of_ne (by rintro ⟨⟩)
  unfold checkCSRF
  split_ifs
  · split
    · exact denies_refuse (by decide)
    · split_ifs
      · exact hserve
      · exact denies_refuse (by decide)
  · exact hserve

/-- `admin-create` denies nothing: it is no request, and no limiter is asked. -/
theorem adminCreate_denying {username password : String} {salt : Password.Salt} :
    Denying trace (Denies cfg call) (adminCreate cfg username password salt) := by
  unfold adminCreate
  generalize Password.hashPassword cfg.argon2 (bytesOfText (trimSpace password)) salt = hash
  split
  · exact denies_of_ne (by rintro ⟨⟩)
  · split
    · exact denies_of_ne (by rintro ⟨⟩)
    · refine ⟨trivial, fun answer => ?_⟩
      cases answer with
      | error f => exact denies_of_ne (by rintro ⟨⟩)
      | ok u => exact denies_of_ne (by rintro ⟨⟩)

/-- Every call denies only after the script. -/
theorem callProgram_denying (hwindow : 0 < cfg.limiter.windowMillis)
    (hmax : 0 < cfg.limiter.maxReqs) (call : Call) :
    Denying [] (Denies cfg call) (callProgram cfg call) := by
  cases call with
  | adminCreate username password salt => exact adminCreate_denying
  | request route r =>
    simp only [callProgram, handle]
    -- On guarded routes only the session and the token decide, and nothing else asks the limiter.
    split
    · unfold adminAuth
      split
      · exact denies_refuse (by decide)
      · refine ⟨trivial, fun answer => ?_⟩
        rcases answer with _ | _ | session
        · exact denies_refuse (by decide)
        · exact denies_refuse (by decide)
        · exact denies_checkCSRF
    · split
      · rename_i hhandler
        exact login_denying hwindow hmax rfl hhandler
      · unfold logout
        split
        · exact denies_of_ne (by rintro ⟨⟩)
        · refine ⟨trivial, fun answer => ?_⟩
          exact denies_of_ne (by rintro ⟨⟩)
      · rename_i hhandler
        exact redeem_denying hwindow hmax rfl hhandler
      · rename_i hhandler
        exact batchRedeem_denying hwindow hmax rfl hhandler
      · exact denies_of_ne (by rintro ⟨⟩)

end Answers

/-! ## Windows -/

variable {ι : Type} [DecidableEq ι] {start : Start ι} {as : List (Action ι Choice)} {s : State ι}
  {i : ι} {traces : CallTraces ι} {key : String} {l : Limiter} {now : ℤ} {window : RedisKey}
  {args : WindowArgs}

/-- The members of a window are those of admitted calls, each with the time of its call. -/
structure Accounted (key : String) (window : RedisKey) (traces : CallTraces ι) : Prop where
  nodup : (window.set.map Prod.fst).Nodup
  origin : ∀ member score, (member, score) ∈ window.set →
    ∃ i args, AdmittedWith (traces i) key args ∧
    args.members = [member] ∧ score = args.now + (1 : ℕ) / 1000000

omit [DecidableEq ι] in
/-- A window that is dropped has no members. -/
theorem Accounted.drop {dropped : Bool} (h : Accounted key window traces) :
    Accounted key (window.drop now dropped) traces := by
  unfold RedisKey.drop
  split_ifs
  · exact ⟨List.nodup_nil, fun _ _ hmem => absurd hmem List.not_mem_nil⟩
  · exact h

omit [DecidableEq ι] in
/-- What the eviction leaves is accounted for. -/
theorem Accounted.evict {windowStart : ℤ} {expireAt : Option ℤ} (h : Accounted key window traces) :
    Accounted key ⟨zRemRangeByScore window.set windowStart, expireAt⟩ traces where
  nodup := h.nodup.sublist (List.filter_sublist.map Prod.fst)
  origin member score hmem := h.origin member score (List.mem_filter.mp hmem).1

omit [DecidableEq ι] in
/-- Members are accounted for when more calls are admitted. -/
theorem Accounted.mono {traces' : CallTraces ι} (h : Accounted key window traces)
    (hsub : ∀ i, traces i ⊆ traces' i) : Accounted key window traces' where
  nodup := h.nodup
  origin member score hmem := by
    obtain ⟨i, args, hadmitted, hrest⟩ := h.origin member score hmem
    exact ⟨i, args, hsub i hadmitted, hrest⟩

/-- The script adds the member of the call that it admits. -/
theorem Accounted.script {j : ι} {result : ℤ} (h : Accounted key window traces)
    (hone : OneRequest l args) (hresult : (runScript now window args).1 = result) :
    Accounted key (runScript now window args).2
      (Function.update traces j
        (⟨.auto (.slidingWindow key args), Except.ok result⟩ :: traces j)) := by
  have hsub : ∀ i, traces i ⊆ Function.update traces j
      (⟨.auto (.slidingWindow key args), Except.ok result⟩ :: traces j) i :=
    fun i x hx => mem_update_cons.mpr (Or.inl hx)
  by_cases hadmits : (runScript now window args).1 = 1
  · obtain ⟨member', hmember'⟩ := hone.members
    have hevicted : Accounted key ⟨zRemRangeByScore window.set args.windowStart, none⟩ traces :=
      h.evict
    rw [(runScript_admits hone hmember' hadmits).2]
    refine ⟨?_, fun member score hmem => ?_⟩
    · -- The script has removed an older entry of its member, so no member is there twice.
      rw [zAdd, List.map_append, List.nodup_append]
      refine ⟨hevicted.nodup.sublist (List.filter_sublist.map Prod.fst), by simp, ?_⟩
      intro m hm m' hm'
      obtain ⟨e, he, rfl⟩ := List.mem_map.mp hm
      obtain rfl : m' = member' := by simpa using hm'
      exact of_decide_eq_true (List.mem_filter.mp he).2
    · rcases List.mem_append.mp hmem with hold | hnew
      · obtain ⟨i, args', hadmitted, hrest⟩ :=
          hevicted.origin member score (List.mem_filter.mp hold).1
        exact ⟨i, args', hsub i hadmitted, hrest⟩
      · -- The new member is the one of the request that was just admitted.
        obtain ⟨rfl, rfl⟩ : member = member' ∧ score = args.now + (1 : ℕ) / 1000000 := by
          simpa using hnew
        have hone' : result = 1 := hresult.symm.trans hadmits
        refine ⟨j, args, mem_update_cons.mpr (Or.inr ⟨rfl, ?_⟩), hmember', rfl⟩
        rw [hone']
  · rw [runScript_refuses hadmits]
    exact h.evict.mono hsub

/-- In every run, the members of a key's window are accounted for. -/
theorem Start.accounted (h : Sys.Traced redis start.state as s traces) (key : String) :
    Accounted key (s.db.tables.windows key) traces := by
  have hsub : ∀ (traces : CallTraces ι) j x i,
      traces i ⊆ Function.update traces j (x :: traces j) i :=
    fun traces j x i y hy => mem_update_cons.mpr (Or.inl hy)
  refine Start.traced_induction h (P := fun T _ _ traces => Accounted key (T.windows key) traces)
    ?_ ?_ ?_ ?_ ?_
  · exact ⟨List.nodup_nil, fun _ _ hmem => absurd hmem List.not_mem_nil⟩
  · intro as s traces j q c e ht ih hrule hexec
    by_cases hq : ∃ args, q = .slidingWindow key args
    · obtain ⟨args, rfl⟩ := hq
      obtain ⟨hans, hwindows⟩ := exec_slidingWindow hexec
      rw [hwindows, Function.update_self]
      exact ih.drop.script (Start.oneRequest ht hrule).1 hans.symm
    · rw [exec_windows hexec fun args he => hq ⟨args, he⟩]
      exact ih.mono (hsub traces j _)
  · exact fun T log clock traces j q ih => ih.mono (hsub traces j _)
  · exact fun T log clock traces j e a c ih _ => ih.mono (hsub traces j _)
  · exact fun T log clock clock' traces ih _ => ih

omit [DecidableEq ι] in
/-- A full window has as many members of calls that were admitted within a window before. -/
theorem Accounted.full (h : Accounted key window traces) (hone : OneRequest l args)
    (hpositive : 0 < l.maxReqs) (hrefuses : (runScript now window args).1 ≠ 1) :
    ∃ members : Finset String, l.maxReqs ≤ members.card ∧ ∀ member ∈ members, ∃ i args',
      AdmittedWith (traces i) key args' ∧ args'.members = [member] ∧
        args.now - l.windowMillis ≤ args'.now := by
  have hevicted : Accounted key ⟨zRemRangeByScore window.set args.windowStart, none⟩ traces :=
    h.evict
  refine ⟨((zRemRangeByScore window.set args.windowStart).map Prod.fst).toFinset, ?_, ?_⟩
  · rw [List.toFinset_card_of_nodup hevicted.nodup, List.length_map]
    exact runScript_full hone hpositive hrefuses
  · intro member hmember
    obtain ⟨⟨m, score⟩, hmem, rfl⟩ := List.mem_map.mp (List.mem_toFinset.mp hmember)
    obtain ⟨i, args', hadmitted, hmembers, rfl⟩ := hevicted.origin m score hmem
    refine ⟨i, args', hadmitted, hmembers, ?_⟩
    -- The score is less than a millisecond after the reading.
    have hscore : (args.windowStart : ℚ) < args'.now + (1 : ℕ) / 1000000 :=
      of_decide_eq_true (List.mem_filter.mp hmem).2
    have hless : (args.windowStart : ℚ) < (args'.now + 1 : ℤ) := by
      push_cast at hscore ⊢
      linarith
    have hint : args.windowStart < args'.now + 1 := by exact_mod_cast hless
    have hstart := hone.windowStart
    omega

/-- In a run, the script on a key has admitted a call. -/
def Start.Admits (start : Start ι) (as : List (Action ι Choice)) (i : ι) (key : String)
    (args : WindowArgs) : Prop :=
  ∃ as₁ c as₂ s₁ k d, as = as₁ ++ .exec i c :: as₂ ∧ start.run as₁ = some s₁ ∧
    s₁.progs i = some (.op (.auto (.slidingWindow key args)) k) ∧
    s₁.db.perform redis i (.auto (.slidingWindow key args)) c = some (.ok (1 : ℤ), d)

/-- In every run of any requests, interleaved command by command, a request is answered that there
are too many of them, although none of its commands has failed, only if the window of one of its
keys was full when it ran the script: as many requests as the limit had been admitted on the key
before, with different members and with readings of the clock that are at most a window older than
its own. -/
theorem denied_only_when_full (h : start.run as = some s)
    (hwindow : 0 < start.config.limiter.windowMillis) (hmax : 0 < start.config.limiter.maxReqs)
    (hfail : Action.fail i ∉ as) (hend : s.answer? i = some tooManyRequests) :
    ∃ key ∈ (start.calls i).limits start.config, ∃ as₁ c as₂ s₁ args k,
      as = as₁ ++ .exec i c :: as₂ ∧ start.run as₁ = some s₁ ∧
      s₁.progs i = some (.op (.auto (.slidingWindow ("ratelimit:" ++ key) args)) k) ∧
      ∃ members : Finset String, start.config.limiter.maxReqs ≤ members.card ∧
        ∀ member ∈ members, ∃ j args', start.Admits as₁ j ("ratelimit:" ++ key) args' ∧
          args'.members = [member] ∧ args.now - start.config.limiter.windowMillis ≤ args'.now := by
  obtain ⟨traces, ht⟩ := Sys.exists_traced h
  have hbegin : ∀ p, start.state.progs i = some p →
      Denying [] (Denies start.config (start.calls i)) p := by
    intro p hp
    obtain rfl : callProgram start.config (start.calls i) = p := Option.some.inj hp
    exact callProgram_denying hwindow hmax (start.calls i)
  have hdenies : Denies start.config (start.calls i) (traces i) tooManyRequests :=
    ht.follows hbegin _ (State.progs_of_answer? hend)
  -- The answer comes after a script that has not admitted the request.
  obtain ⟨key, hkey, args, answer, hmem, hne⟩ := hdenies rfl
  obtain ⟨as₁, act, as₂, s₁, k, d, has, hs₁, hp, ha⟩ := ht.happened hmem
  cases ha with
  -- The script has not failed, since no command of the request has.
  | fail hf => exact absurd (by simp [has]) hfail
  | @exec c hperform =>
    obtain ⟨traces₁, ht₁⟩ := Sys.exists_traced hs₁
    obtain rfl := Start.perform_slidingWindow hperform
    have hrefuses : (runScript (millis s₁.db.clock)
        ((s₁.db.tables.windows ("ratelimit:" ++ key)).drop
        (millis s₁.db.clock) c.dropped) args).1 ≠ 1 := fun heq => hne (congrArg Except.ok heq)
    obtain ⟨hone, -⟩ := Start.oneRequest ht₁ (Start.rule ht₁ hp)
    -- At that moment the window had as many members as the limit, each put there by a request.
    obtain ⟨members, hcard, hall⟩ :=
      (Start.accounted ht₁ ("ratelimit:" ++ key)).drop.full hone hmax hrefuses
    refine ⟨key, hkey, as₁, c, as₂, s₁, args, k, has, hs₁, hp, members, hcard, fun member hm => ?_⟩
    obtain ⟨j, args', hadmitted, hmembers, hle⟩ := hall member hm
    exact ⟨j, args', Start.exec_of_mem ht₁ hadmitted, hmembers, hle⟩

/-- Whether an answer is the one to too many requests. -/
def Answer.isTooMany : Answer → Bool
  | .reply r => r = respondError 429 "请求过于频繁，请稍后再试" []
  | _ => false

/-- The answer to too many requests is the only one of its kind. -/
theorem Answer.eq_of_isTooMany {a : Answer} (h : a.isTooMany = true) : a = tooManyRequests := by
  unfold Answer.isTooMany at h
  split at h
  · rw [of_decide_eq_true h]
    rfl
  · cases h

/-- The login of the other call is denied. -/
theorem threeLoginsRun_denied : ((threeLogins.run threeLoginsRun).bind fun s => s.answer? 1).map
    Answer.isTooMany = some true := by
  decide +kernel

/-- So two logins were admitted before it. -/
theorem denied_only_when_full_logins :
    ∃ key ∈ (threeLogins.calls 1).limits threeLogins.config, ∃ as₁ c as₂ s₁ args k,
      threeLoginsRun = as₁ ++ .exec 1 c :: as₂ ∧ threeLogins.run as₁ = some s₁ ∧
      s₁.progs 1 = some (.op (.auto (.slidingWindow ("ratelimit:" ++ key) args)) k) ∧
      ∃ members : Finset String, 2 ≤ (members.card : ℤ) ∧ ∀ member ∈ members, ∃ j args',
        threeLogins.Admits as₁ j ("ratelimit:" ++ key) args' ∧ args'.members = [member] ∧
          args.now - 60000 ≤ args'.now := by
  obtain ⟨a, ha, hmany⟩ := Option.map_eq_some_iff.mp threeLoginsRun_denied
  obtain ⟨s, hs, ha⟩ := Option.bind_eq_some_iff.mp ha
  rw [Answer.eq_of_isTooMany hmany] at ha
  refine denied_only_when_full hs (by decide) (by decide) ?_ ha
  simp [threeLoginsRun]

end CdkSystem.Front
