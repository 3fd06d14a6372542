import CdkSystem.Front
import CdkSystem.Lib.Traces

/-!
# What requests ask for

A request asks for the script of the rate limiter on its own keys only, and for what the limiter
guards after it was admitted on all of them; it stores a session only for an administrator whose
password it has verified; and it reads and deletes the session of its own cookie only (`Rule`,
`handle_follows`).

These are facts about single programs: they hold whatever the commands are answered, so they need no
assumption about the other requests. Each handler has one lemma, and `handle_follows` puts them
together for all routes.
-/

namespace CdkSystem.Front

open RowLock Relational

/-- The trace of a call of the front: what it has asked, with the answers. -/
abbrev CallTrace := OpTrace Empty Query Env Query.Ans Env.Ans

/-- The keys on which the limiter has to admit a request before what it guards. -/
def Request.limits (cfg : Config) (r : Request) : Handler → List String
  | .login => ["login:ip:" ++ clientIP r]
  | .redeem => ("redeem:ip:" ++ clientIP r) :: ((r.redeem.map Prod.fst).filter (· ≠ "")).toList.map
      fun userID => "redeem:user:" ++ normalizeUserKey cfg.runtime userID
  | .batchRedeem =>
    ("redeem:batch:ip:" ++ clientIP r) :: ((r.batchRedeem.map Prod.fst).filter (· ≠ "")).toList.map
      fun userID => "redeem:batch:user:" ++ normalizeUserKey cfg.runtime userID
  | _ => []

/-- The keys of a call: those of the limiters that it asks before it goes on. -/
def Call.limits (cfg : Config) : Call → List String
  | .request route r => r.limits cfg route.handler
  | .adminCreate _ _ _ => []

/-- The arguments of the script are those of one request at a time that was read before. -/
structure WindowRequest (l : Limiter) (trace : CallTrace) (args : WindowArgs) : Prop where
  read : ∃ t : Time, ⟨.env .now, t⟩ ∈ trace ∧ args.now = millis t
  windowStart : args.windowStart = args.now - l.windowMillis
  maxRequests : args.maxRequests = l.maxReqs
  ttl : args.ttl = l.windowMillis
  requested : args.requested = 1
  members : ∃ member, args.members = [member]

/-- The limiter has admitted a call on a key. -/
def Admitted (trace : CallTrace) (key : String) : Prop :=
  ∃ args, ⟨.auto (.slidingWindow ("ratelimit:" ++ key) args), Except.ok (1 : ℤ)⟩ ∈ trace

/-- The session of an administrator, with the values that the row had at the login. -/
structure SessionOf (session : Session) (admin : Admin) : Prop where
  adminID : session.adminID = admin.id
  username : session.username = admin.username
  sessionVersion : session.sessionVersion = admin.sessionVersion

/-- What a call asks for after a trace. -/
def Rule (cfg : Config) (call : Call) : CallTrace → TxOp Empty Query Env → Prop
  | _, .env .now | _, .env (.randomHex _) => True
  | trace, .auto (.slidingWindow key args) =>
    (∃ k ∈ call.limits cfg, key = "ratelimit:" ++ k) ∧ WindowRequest cfg.limiter trace args
  | trace, .env (.redeem _) | trace, .env (.batchRedeem _) =>
    ∀ key ∈ call.limits cfg, Admitted trace key
  | trace, .auto (.getAdminByUsername _) => ∀ key ∈ call.limits cfg, Admitted trace key
  | trace, .auto (.setSession _ session seconds) =>
    seconds = cfg.sessionSeconds ∧ ∃ route r req admin, call = .request route r ∧
      route.handler = .login ∧ r.login = some req ∧
      ⟨.auto (.getAdminByUsername (trimSpace req.username)), Except.ok (some admin)⟩ ∈ trace ∧
      req.valid = true ∧ Password.verifyPassword cfg.argon2 (bytesOfText req.password)
        admin.passwordHash.toList = .ok true ∧ SessionOf session admin
  | _, .auto (.getSession id) => ∃ route r, call = .request route r ∧
      route.requireCSRF.isSome = true ∧ r.cookie sessionCookieName = some id
  | _, .auto (.delSession id) => ∃ route r, call = .request route r ∧ route.handler = .logout ∧
      r.cookie sessionCookieName = some id
  | _, .auto (.createAdmin _ _) => ∃ username password salt,
    call = .adminCreate username password salt
  | _, _ => False

/-- What a call that has returned has been answered: a request on a guarded route has its session,
if it was not refused. -/
def Returns (call : Call) (trace : CallTrace) (a : Answer) : Prop :=
  ∀ route r requireCSRF, call = .request route r → route.requireCSRF = some requireCSRF →
    (r.cookie sessionCookieName = none ∧ trace = [] ∧ a = refuse 401 "未登录") ∨
    ∃ id, r.cookie sessionCookieName = some id ∧
      (trace = [⟨.auto (.getSession id), Except.error .failed⟩] ∧ a = refuse 500 "会话读取失败" ∨
        trace = [⟨.auto (.getSession id), Except.ok none⟩] ∧ a = refuse 401 "会话已过期" ∨
        ∃ session, trace = [⟨.auto (.getSession id), Except.ok (some session)⟩] ∧
          a = checkCSRF requireCSRF route.method r (serve route session))

section Follows

variable {cfg : Config} {call : Call} {trace : CallTrace} {route : Route} {r : Request}

/-- A program of a call keeps to the rule after a trace. -/
abbrev Keeps {α : Type} (cfg : Config) (call : Call) (trace : CallTrace) (p : M α) : Prop :=
  Prog.Follows (Rule cfg call) (fun _ _ => True) trace p

/-- What a call was admitted on, it stays admitted on. -/
theorem Admitted.mono {trace' : CallTrace} {key : String} (h : Admitted trace key)
    (hsub : trace ⊆ trace') : Admitted trace' key := by
  obtain ⟨args, hmem⟩ := h
  exact ⟨args, hsub hmem⟩

/-- The limiter keeps to the rule, if what follows does, and what follows a permission may rely on
it. -/
theorem allow_follows {α : Type} {key : String} {K : Bool → M α} (hkey : key ∈ call.limits cfg)
    (hdeny : ∀ trace', Keeps cfg call trace' (K false))
    (hpermit : ∀ trace', trace ⊆ trace' → Admitted trace' key → Keeps cfg call trace' (K true)) :
    Keeps cfg call trace (allow cfg.limiter key >>= K) := by
  unfold allow allowN
  refine ⟨trivial, fun t => ?_⟩
  split_ifs with hpositive
  · exact hdeny _
  · refine ⟨trivial, fun text => ⟨⟨⟨key, hkey, rfl⟩, ?_⟩, fun answer => ?_⟩⟩
    · exact ⟨⟨t, by simp, rfl⟩, rfl, rfl, rfl, rfl, _, rfl⟩
    · cases answer with
      | error f => exact hdeny _
      | ok result =>
        change Keeps cfg call _ (K (decide (result = 1)))
        by_cases hone : result = 1
        · subst hone
          exact hpermit _ (fun x hx => by simp [hx]) ⟨_, List.mem_cons_self⟩
        · rw [decide_eq_false hone]
          exact hdeny _

/-- `createSession` keeps to the rule after the password was verified. -/
theorem createSession_follows {req : LoginRequest} {admin : Admin}
    (hcall : call = .request route r) (hhandler : route.handler = .login)
    (hbody : r.login = some req)
    (hread : ⟨.auto (.getAdminByUsername (trimSpace req.username)), Except.ok (some admin)⟩ ∈ trace)
    (hvalid : req.valid = true) (hpassword : Password.verifyPassword cfg.argon2
      (bytesOfText req.password) admin.passwordHash.toList = .ok true) :
    Keeps cfg call trace (createSession cfg admin) := by
  refine ⟨trivial, fun csrf => ⟨trivial,
    fun t => ⟨trivial, fun id => ⟨⟨rfl, ?_⟩, fun answer => ?_⟩⟩⟩⟩
  · exact ⟨route, r, req, admin, hcall, hhandler, hbody, by simp [hread], hvalid, hpassword,
      ⟨rfl, rfl, rfl⟩⟩
  · cases answer <;> trivial

/-- `Login` keeps to the rule: it reads no administrator before the limiter has let it pass. -/
theorem login_follows (hcall : call = .request route r) (hhandler : route.handler = .login) :
    Keeps cfg call [] (login cfg r) := by
  have hlimits : call.limits cfg = ["login:ip:" ++ clientIP r] := by
    rw [hcall, Call.limits, hhandler]
    rfl
  unfold login
  split
  · trivial
  · rename_i req hbody
    split_ifs with hvalid
    · trivial
    · refine allow_follows (by simp [hlimits]) (fun _ => trivial) fun trace _ hadmitted => ?_
      rw [if_pos rfl]
      refine ⟨fun key hkey => ?_, fun answer => ?_⟩
      · rw [hlimits, List.mem_singleton] at hkey
        rwa [hkey]
      · rcases answer with _ | _ | admin
        · trivial
        · trivial
        · -- Only a verified password leads on.
          dsimp only [Prog.bind]
          split
          · trivial
          · trivial
          · trivial
          · rename_i hpassword
            refine createSession_follows hcall hhandler hbody List.mem_cons_self ?_ hpassword
            simpa using hvalid

/-- `Logout` keeps to the rule: it deletes the session that its cookie names, and no other one. -/
theorem logout_follows (hcall : call = .request route r) (hhandler : route.handler = .logout) :
    Keeps cfg call [] (logout r) := by
  unfold logout
  split
  · trivial
  · rename_i id hcookie
    exact ⟨⟨route, r, hcall, hhandler, hcookie⟩, fun _ => trivial⟩

/-- What is behind the limiter on the address and on the user keeps to the rule after both of them.
-/
theorem allowUser_follows {α : Type} {key label userID : String} {K : Bool → M α}
    (hlimits : call.limits cfg = key :: ((some userID).filter (· ≠ "")).toList.map fun userID =>
      label ++ normalizeUserKey cfg.runtime userID)
    (hfirst : Admitted trace key) (hdeny : ∀ trace', Keeps cfg call trace' (K false))
    (hpermit : ∀ trace', (∀ k ∈ call.limits cfg, Admitted trace' k) →
      Keeps cfg call trace' (K true)) :
    Keeps cfg call trace (allowUser cfg label userID >>= K) := by
  unfold allowUser
  split_ifs with huser
  · refine hpermit trace fun k hk => ?_
    simp only [hlimits, huser, Option.filter, ne_eq, not_true_eq_false, decide_false,
      Bool.false_eq_true, if_false, Option.toList_none, List.map_nil, List.mem_singleton] at hk
    rwa [hk]
  · have hboth : call.limits cfg = [key, label ++ normalizeUserKey cfg.runtime userID] := by
      simp [hlimits, Option.filter, huser]
    refine allow_follows (by simp [hboth]) hdeny fun trace' hsub hsecond => ?_
    refine hpermit trace' fun k hk => ?_
    rw [hboth] at hk
    simp only [List.mem_cons, List.not_mem_nil, or_false] at hk
    rcases hk with rfl | rfl
    · exact hfirst.mono hsub
    · exact hsecond

/-- `RedeemHandler.Redeem` keeps to the rule: the service is asked only after its limiters. -/
theorem redeem_follows (hcall : call = .request route r) (hhandler : route.handler = .redeem) :
    Keeps cfg call [] (redeem cfg r) := by
  unfold redeem
  split
  · trivial
  · rename_i userID code hbody
    have hlimits : call.limits cfg = ("redeem:ip:" ++ clientIP r) ::
        ((some userID).filter (· ≠ "")).toList.map fun userID =>
          "redeem:user:" ++ normalizeUserKey cfg.runtime userID := by
      rw [hcall, Call.limits, hhandler, Request.limits, hbody]
      rfl
    refine allow_follows (by simp [hlimits]) (fun _ => trivial) fun trace _ hfirst => ?_
    rw [if_pos rfl]
    refine allowUser_follows hlimits hfirst (fun _ => trivial) fun trace' hall => ?_
    rw [if_pos rfl]
    exact ⟨hall, fun _ => trivial⟩

/-- `RedeemHandler.BatchRedeem` keeps to the rule: the service is asked only after its limiters. -/
theorem batchRedeem_follows (hcall : call = .request route r)
    (hhandler : route.handler = .batchRedeem) :
    Keeps cfg call [] (batchRedeem cfg r) := by
  unfold batchRedeem
  split
  · trivial
  · rename_i userID codes hbody
    have hlimits : call.limits cfg = ("redeem:batch:ip:" ++ clientIP r) ::
        ((some userID).filter (· ≠ "")).toList.map fun userID =>
          "redeem:batch:user:" ++ normalizeUserKey cfg.runtime userID := by
      rw [hcall, Call.limits, hhandler, Request.limits, hbody]
      rfl
    split_ifs with hcodes
    · trivial
    refine allow_follows (by simp [hlimits]) (fun _ => trivial) fun trace _ hfirst => ?_
    rw [if_pos rfl]
    refine allowUser_follows hlimits hfirst (fun _ => trivial) fun trace' hall => ?_
    rw [if_pos rfl]
    exact ⟨hall, fun _ => trivial⟩

/-- `AdminAuthMiddleware` keeps to the rule, and answers for the session that it has read. -/
theorem adminAuth_follows {requireCSRF : Bool} (hcall : call = .request route r)
    (hroute : route.requireCSRF = some requireCSRF) :
    Prog.Follows (Rule cfg call) (Returns call) [] (adminAuth requireCSRF route r) := by
  have hreturns : ∀ trace a, ((r.cookie sessionCookieName = none ∧ trace = [] ∧
      a = refuse 401 "未登录") ∨ ∃ id, r.cookie sessionCookieName = some id ∧
      (trace = [⟨.auto (.getSession id), Except.error .failed⟩] ∧ a = refuse 500 "会话读取失败" ∨
        trace = [⟨.auto (.getSession id), Except.ok none⟩] ∧ a = refuse 401 "会话已过期" ∨
        ∃ session, trace = [⟨.auto (.getSession id), Except.ok (some session)⟩] ∧
          a = checkCSRF requireCSRF route.method r (serve route session))) →
      Returns call trace a := by
    intro trace a h route' r' requireCSRF' hcall' hroute'
    rw [hcall, Call.request.injEq] at hcall'
    obtain ⟨rfl, rfl⟩ := hcall'
    rw [hroute, Option.some.injEq] at hroute'
    obtain rfl := hroute'
    exact h
  unfold adminAuth
  split
  · rename_i hcookie
    exact hreturns _ _ (Or.inl ⟨hcookie, rfl, rfl⟩)
  · rename_i id hcookie
    refine ⟨⟨route, r, hcall, by simp [hroute], hcookie⟩, fun answer => ?_⟩
    match answer with
    | .error .failed => exact hreturns _ _ (Or.inr ⟨id, hcookie, Or.inl ⟨rfl, rfl⟩⟩)
    | .ok none => exact hreturns _ _ (Or.inr ⟨id, hcookie, Or.inr (Or.inl ⟨rfl, rfl⟩)⟩)
    | .ok (some session) =>
      exact hreturns _ _ (Or.inr ⟨id, hcookie, Or.inr (Or.inr ⟨session, rfl, rfl⟩)⟩)

/-- Every call keeps to the rule, from its first operation to its answer. -/
theorem callProgram_follows (cfg : Config) (call : Call) :
    Prog.Follows (Rule cfg call) (Returns call) [] (callProgram cfg call) := by
  -- Only requests on routes that are guarded promise anything about their answers.
  cases call with
  | adminCreate username password salt =>
    have hreturns : ∀ trace a, Returns (.adminCreate username password salt) trace a := by
      intro trace a route r requireCSRF hcall
      cases hcall
    simp only [callProgram, adminCreate]
    split_ifs
    · exact hreturns _ _
    · exact hreturns _ _
    · refine ⟨⟨username, password, salt, rfl⟩, fun answer => ?_⟩
      cases answer <;> exact hreturns _ _
  | request route r =>
    simp only [callProgram, handle]
    split
    · rename_i requireCSRF hroute
      exact adminAuth_follows rfl hroute
    · rename_i hroute
      have hreturns : ∀ trace a, Returns (.request route r) trace a := by
        intro trace a route' r' requireCSRF' hcall' hroute'
        rw [Call.request.injEq] at hcall'
        obtain ⟨rfl, rfl⟩ := hcall'
        rw [hroute] at hroute'
        cases hroute'
      have hkeeps : ∀ p : M Answer, Keeps cfg (.request route r) [] p →
          Prog.Follows (Rule cfg (.request route r)) (Returns (.request route r)) [] p :=
        fun p hp => hp.mono fun trace a _ => hreturns trace a
      split
      · rename_i hhandler
        exact hkeeps _ (login_follows rfl hhandler)
      · rename_i hhandler
        exact hkeeps _ (logout_follows rfl hhandler)
      · rename_i hhandler
        exact hkeeps _ (redeem_follows rfl hhandler)
      · rename_i hhandler
        exact hkeeps _ (batchRedeem_follows rfl hhandler)
      · exact hreturns _ _

end Follows

end CdkSystem.Front
