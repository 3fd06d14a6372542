import CdkSystem.Admin
import CdkSystem.BatchRedeem
import CdkSystem.Password
import CdkSystem.RateLimit

/-!
# The front of the API

What a request passes before the service does anything for it: the rate limiter, the login with its
sessions in Redis, and the middleware that guards the administration (`internal/auth`,
`internal/httpapi`), on the routes of `cmd/api/main.go`. A request is a program that asks for
commands of Redis, for queries about administrators, and for the answers of the redemption service,
so any number of requests run interleaved on what Redis and the table `admins` hold.
-/

namespace CdkSystem

open RowLock Relational

/-- `Admin`: an administrator with the hash of the password and the version that makes sessions
invalid. -/
structure Admin where
  id : ℕ
  username : String
  passwordHash : String
  sessionVersion : ℤ
  deriving DecidableEq

instance : HasKey Admin ℕ := ⟨Admin.id⟩

/-- `Session`: what Redis stores for somebody who has logged in, with the version at that time. -/
structure Session where
  adminID : ℕ
  username : String
  sessionVersion : ℤ
  createdAt : Time
  deriving DecidableEq

namespace Front

/-! ## Redis and the administrators -/

/-- Milliseconds since the epoch, in which Redis counts the times of its keys. -/
def millis (t : Time) : ℤ := t / 1000

/-- What Redis holds under the prefixes `session:` and `ratelimit:`, and the table `admins`. A
session has the time after which Redis drops it. -/
structure Store where
  sessions : String → Option (Session × ℤ)
  windows : String → RedisKey
  admins : Table Admin

/-- The changes of the store, each made by one command or one statement. -/
inductive Write where
  | setSession (id : String) (session : Session) (expireAt : ℤ)
  | delSession (id : String)
  | setWindow (key : String) (window : RedisKey)
  | createAdmin (admin : Admin)

/-- The store after a change, which touches one session, one window or the table `admins`. -/
def Store.apply (s : Store) : Write → Store
  | .setSession id session expireAt =>
    { s with sessions := Function.update s.sessions id (some (session, expireAt)) }
  | .delSession id => { s with sessions := Function.update s.sessions id none }
  | .setWindow key window => { s with windows := Function.update s.windows key window }
  | .createAdmin admin => { s with admins := s.admins.insert admin }

/-- The sessions after a `SET`: the one under this `id` is new, and the others are as before. -/
@[simp]
theorem Store.sessions_setSession (s : Store) (id : String) (session : Session) (expireAt : ℤ) :
    (s.apply (.setSession id session expireAt)).sessions =
      Function.update s.sessions id (some (session, expireAt)) := rfl

/-- The sessions after a `DEL`: there is none under this `id` any more. -/
@[simp]
theorem Store.sessions_delSession (s : Store) (id : String) :
    (s.apply (.delSession id)).sessions = Function.update s.sessions id none := rfl

/-- The windows after the script: the one of its key is new, and the others are as before. -/
@[simp]
theorem Store.windows_setWindow (s : Store) (key : String) (window : RedisKey) :
    (s.apply (.setWindow key window)).windows = Function.update s.windows key window := rfl

/-- The session under an `id` that Redis has not dropped. -/
def Store.session? (s : Store) (now : ℤ) (id : String) : Option Session :=
  ((s.sessions id).filter fun e => now ≤ e.2).map Prod.fst

/-- The commands of Redis and the queries. -/
inductive Query where
  /-- `slidingWindowScript` on a key. -/
  | slidingWindow (key : String) (args : WindowArgs)
  /-- `SET … EX` on the key of a session. -/
  | setSession (id : String) (session : Session) (seconds : ℤ)
  /-- `GET` on the key of a session. -/
  | getSession (id : String)
  /-- `DEL` on the key of a session. -/
  | delSession (id : String)
  /-- `GetAdminByUsername`. -/
  | getAdminByUsername (username : String)
  /-- `CreateAdmin`. -/
  | createAdmin (username passwordHash : String)

/-- What they return: `none` is an absent key, or `pgx.ErrNoRows`. -/
abbrev Query.Ans : Query → Type
  | .slidingWindow _ _ => ℤ
  | .setSession _ _ _ => Unit
  | .getSession _ => Option Session
  | .delSession _ => Unit
  | .getAdminByUsername _ => Option Admin
  | .createAdmin _ _ => Unit

/-- Questions to the outside world and to the service behind the front. -/
inductive Env where
  /-- `time.Now()`. -/
  | now
  /-- So many random bytes, in hexadecimal digits. -/
  | randomHex (bytes : ℕ)
  /-- `Service.Redeem`. -/
  | redeem (req : RedeemRequest)
  /-- `Service.BatchRedeem`. -/
  | batchRedeem (req : BatchRedeemRequest)

/-- The answers to the questions, by what was asked: a time, a text, or what the service returned.
-/
abbrev Env.Ans : Env → Type
  | .now => Time
  | .randomHex _ => String
  | .redeem _ => Except GoError RedeemResponse
  | .batchRedeem _ => Except GoError BatchRedeemResponse

/-- What is chosen where the model leaves a step open. -/
structure Choice where
  /-- What the random source returns. -/
  text : String
  /-- Whether Redis has dropped a window whose time is over. -/
  dropped : Bool
  /-- What `Service.Redeem` returns. -/
  redeemed : Except GoError RedeemResponse
  /-- What `Service.BatchRedeem` returns. -/
  batchRedeemed : Except GoError BatchRedeemResponse

/-- The answer to a question at a time. -/
def Env.answer (now : Time) : (e : Env) → Choice → Option e.Ans
  | .now, _ => some now
  | .randomHex n, c => if isHex n c.text then some c.text else none
  | .redeem _, c => some c.redeemed
  | .batchRedeem _, c => some c.batchRedeemed

/-- The script on a window at a time of Redis, from which `PEXPIRE` counts. -/
def runScript (now : ℤ) (window : RedisKey) (args : WindowArgs) : ℤ × RedisKey :=
  let r := slidingWindowScript window args
  (r.1, if r.1 = 1 then { r.2 with expireAt := some (now + args.ttl) } else r.2)

/-- What a command or query does. Redis rejects a `SET` whose expiry is not positive, and the
usernames of administrators are unique. -/
def Query.exec (ctx : Ctx Store ℕ Empty) : (q : Query) → Choice →
    Option (Except Failure (Effect ℕ Write Empty q.Ans))
  | .slidingWindow key args, c =>
    let now := millis ctx.now
    let r := runScript now ((ctx.view.windows key).drop now c.dropped) args
    some (.ok ⟨r.1, [.setWindow key r.2], [], ctx.seq⟩)
  | .setSession id session seconds, _ =>
    if seconds ≤ 0 then some (.error .failed)
    else some (.ok ⟨(), [.setSession id session (millis ctx.now + seconds * 1000)], [], ctx.seq⟩)
  | .getSession id, _ => some (.ok ⟨ctx.view.session? (millis ctx.now) id, [], [], ctx.seq⟩)
  | .delSession id, _ => some (.ok ⟨(), [.delSession id], [], ctx.seq⟩)
  | .getAdminByUsername username, _ =>
    some (.ok ⟨ctx.view.admins.rows.find? fun a => a.username = username, [], [], ctx.seq⟩)
  | .createAdmin username passwordHash, _ =>
    if ctx.view.admins.rows.any fun a => a.username = username then some (.error .failed)
    else some (.ok ⟨(), [.createAdmin ⟨ctx.seq, username, passwordHash, 1⟩], [], ctx.seq + 1⟩)

/-- Redis and the administrators as a database in which every command and query is a transaction of
its own. -/
def redis : Dbms Store ℕ Write Empty Query Env Choice Query.Ans Env.Ans where
  apply := Store.apply
  exec := Query.exec
  env := Env.answer

/-- Programs of the front: they ask for commands, for queries and for answers, and open no
transaction. -/
abbrev M (α : Type) := TxProg Empty Query Env Query.Ans Env.Ans α

/-- A question to the outside world, which always has an answer. -/
def ask (e : Env) : M e.Ans := Prog.op (.env e) fun a => .ret a

/-- A command or query, which may fail instead of being answered. -/
def perform (q : Query) : M (Except Failure q.Ans) :=
  Prog.op (.auto q) fun a => .ret a

/-! ## Requests and answers -/

/-- The methods of the routes, as far as the routes use them. -/
inductive Method where
  | get
  | post
  | put
  | patch
  | delete
  deriving DecidableEq, Repr

/-- `isMutatingMethod`: the methods for which the token against forged requests is required. -/
def Method.isMutating : Method → Bool
  | .post | .put | .patch | .delete => true
  | .get => false

/-- The handlers of the routes under `/api`. -/
inductive Handler where
  | listFAQ
  | siteSettingsGet
  | siteLogo
  | redeem
  | batchRedeem
  | login
  | logout
  | me
  | stats
  | listBatches
  | createBatch
  | getBatch
  | toggleBatch
  | listCodes
  | exportBatch
  | toggleCode
  | listLogs
  | resendWebhook
  | createFAQ
  | updateFAQ
  | deleteFAQ
  | reorderFAQ
  | siteSettingsUpdate
  | listCredentials
  | statsCredentials
  | listCredentialPlans
  | getCredential
  | downloadCredential
  | uploadCredentials
  | deleteCredential
  | batchDeleteCredentials
  deriving DecidableEq, Repr

/-- A route: its method and path, the argument of its `AdminAuthMiddleware` if it has one, and its
handler. -/
structure Route where
  method : Method
  path : String
  requireCSRF : Option Bool
  handler : Handler
  deriving DecidableEq, Repr

/-- The routes under `/api` of `cmd/api/main.go`, each with the middleware that stands before its
handler. -/
def routes : List Route :=
  [⟨.get, "/api/faq", none, .listFAQ⟩,
    ⟨.get, "/api/site-settings", none, .siteSettingsGet⟩,
    ⟨.get, "/api/site-logo", none, .siteLogo⟩,
    ⟨.post, "/api/redeem", none, .redeem⟩,
    ⟨.post, "/api/redeem/batch", none, .batchRedeem⟩,
    ⟨.post, "/api/admin/login", none, .login⟩,
    ⟨.post, "/api/admin/logout", none, .logout⟩,
    ⟨.get, "/api/admin/me", some false, .me⟩,
    ⟨.get, "/api/admin/stats", some false, .stats⟩,
    ⟨.get, "/api/admin/batches", some false, .listBatches⟩,
    ⟨.post, "/api/admin/batches", some true, .createBatch⟩,
    ⟨.get, "/api/admin/batches/\x7bid\x7d", some false, .getBatch⟩,
    ⟨.post, "/api/admin/batches/\x7bid\x7d/toggle", some true, .toggleBatch⟩,
    ⟨.get, "/api/admin/batches/\x7bid\x7d/codes", some false, .listCodes⟩,
    ⟨.get, "/api/admin/batches/\x7bid\x7d/export", some false, .exportBatch⟩,
    ⟨.post, "/api/admin/codes/\x7bid\x7d/toggle", some true, .toggleCode⟩,
    ⟨.get, "/api/admin/logs", some false, .listLogs⟩,
    ⟨.post, "/api/admin/logs/\x7bid\x7d/resend", some true, .resendWebhook⟩,
    ⟨.get, "/api/admin/faq", some false, .listFAQ⟩,
    ⟨.post, "/api/admin/faq", some true, .createFAQ⟩,
    ⟨.put, "/api/admin/faq/\x7bid\x7d", some true, .updateFAQ⟩,
    ⟨.delete, "/api/admin/faq/\x7bid\x7d", some true, .deleteFAQ⟩,
    ⟨.post, "/api/admin/faq/reorder", some true, .reorderFAQ⟩,
    ⟨.post, "/api/admin/site-settings", some true, .siteSettingsUpdate⟩,
    ⟨.get, "/api/admin/credentials", some false, .listCredentials⟩,
    ⟨.get, "/api/admin/credentials/stats", some false, .statsCredentials⟩,
    ⟨.get, "/api/admin/credentials/plans", some false, .listCredentialPlans⟩,
    ⟨.get, "/api/admin/credentials/\x7bid\x7d", some false, .getCredential⟩,
    ⟨.get, "/api/admin/credentials/\x7bid\x7d/download", some false, .downloadCredential⟩,
    ⟨.post, "/api/admin/credentials/upload", some true, .uploadCredentials⟩,
    ⟨.delete, "/api/admin/credentials/\x7bid\x7d", some true, .deleteCredential⟩,
    ⟨.post, "/api/admin/credentials/batch-delete", some true, .batchDeleteCredentials⟩]

/-- A route of the administration: its path begins with the prefix that the guard protects. -/
def Route.isAdmin (route : Route) : Bool := "/api/admin/".toList.isPrefixOf route.path.toList

/-- The routes of the administration are guarded, except for the login and the logout, and a guarded
route checks the token exactly if its method changes anything. -/
theorem guarded_routes : ∀ route ∈ routes, route.requireCSRF =
    if route.isAdmin = true ∧ route.handler ≠ .login ∧ route.handler ≠ .logout then
      some route.method.isMutating else none := by
  decide

/-- `loginRequest`: the name and the password that somebody logs in with. -/
structure LoginRequest where
  username : String
  password : String
  deriving DecidableEq

/-- A request on a route: the address after `TrustedProxyMiddleware`, the cookies, the headers
`X-CSRF-Token` and `Idempotency-Key`, which are empty when they are absent, and what the body
decodes to in the handlers that decode it. -/
structure Request where
  remoteAddr : String
  cookies : List (String × String)
  csrfHeader : String
  idempotencyKey : String
  login : Option LoginRequest
  redeem : Option (String × String)
  batchRedeem : Option (String × List String)
  deriving DecidableEq

/-- `SessionCookieName`: the cookie that names the session of a request. -/
def sessionCookieName : String := "cdk_session"

/-- `CSRFCookieName`: the cookie with the token that a mutating request has to repeat in a header.
-/
def csrfCookieName : String := "csrf_token"

/-- `r.Cookie(name)`: the first cookie of the name. -/
def Request.cookie (r : Request) (name : String) : Option String :=
  (r.cookies.find? fun c => c.1 = name).map Prod.snd

/-- `VerifyCSRFToken` compares all bytes in constant time, in either branch. -/
def verifyCSRFToken (a b : String) : Bool := a = b

/-- What a request is answered: a reply of a handler, or what the service has returned for it. -/
inductive Answer where
  /-- `RespondError`, or an answer without further data. -/
  | reply (r : Reply)
  /-- The cookies of a new session, and the username. -/
  | loggedIn (session csrf : String) (maxAge : ℤ) (username : String)
  /-- The cleared cookies. -/
  | loggedOut
  /-- The username of the session. -/
  | me (username : String)
  /-- The handler of the route runs, for an administrator if the route has the middleware. -/
  | served (handler : Handler) (admin : Option (ℕ × String))
  /-- The response of a redemption. -/
  | redeemed (status : ℕ) (resp : RedeemResponse)
  /-- The response of a batch redemption. -/
  | batchRedeemed (status : ℕ) (resp : BatchRedeemResponse)
  /-- `admin-create` ends with a message. -/
  | exit (code : ℕ) (message : String)

/-- `RespondError` without details, which is how the middleware and the login refuse a request. -/
def refuse (status : ℕ) (message : String) : Answer := .reply (respondError status message [])

/-- The configuration of the front: its limiters, the life of a session, and the functions that are
not modelled. -/
structure Config where
  /-- The limiter of the logins and that of the redemptions have the same parameters. -/
  limiter : Limiter
  /-- `SessionLifetime` in whole seconds. -/
  sessionSeconds : ℤ
  argon2 : Argon2
  runtime : Runtime

/-! ## The rate limiter -/

/-- The random parts of the members of a call. -/
def randomMembers : ℕ → M (List String)
  | 0 => .ret []
  | n + 1 => do
    let text ← ask (.randomHex 8)
    let rest ← randomMembers n
    return text :: rest

/-- `allowN`; an error is logged and is no permission. -/
def allowN (l : Limiter) (key : String) (count maxRequests : ℤ) : M Bool := do
  let time ← ask .now
  let now := millis time
  if l.windowMillis ≤ 0 ∨ count ≤ 0 ∨ maxRequests ≤ 0 then return false
  let texts ← randomMembers count.toNat
  match ← perform (.slidingWindow ("ratelimit:" ++ key)
      { now
        windowStart := now - l.windowMillis
        maxRequests
        ttl := l.windowMillis
        requested := count
        members := texts.map fun text => toString now ++ ":" ++ text }) with
  | .error _ => return false
  | .ok result => return result = 1

/-- `Allow`: one use of the limiter's own budget, asked for by the script. -/
def allow (l : Limiter) (key : String) : M Bool := allowN l key 1 l.maxReqs

/-- `r.RemoteAddr`, or a word for an empty one. -/
def clientIP (r : Request) : String := if r.remoteAddr = "" then "unknown" else r.remoteAddr

/-! ## The handlers -/

/-- `Login` after the password was verified: a session under a random name is stored and becomes the
cookie. -/
def createSession (cfg : Config) (admin : Admin) : M Answer := do
  let csrfToken ← ask (.randomHex 32)
  let createdAt ← ask .now
  let sessID ← ask (.randomHex 32)
  match ← perform (.setSession sessID
      ⟨admin.id, admin.username, admin.sessionVersion, createdAt⟩ cfg.sessionSeconds) with
  | .error _ => return refuse 500 "会话创建失败"
  | .ok _ => return .loggedIn sessID csrfToken cfg.sessionSeconds admin.username

/-- `Login` after the limiter has let it pass. -/
def checkPassword (cfg : Config) (username password : String) : M Answer := do
  match ← perform (.getAdminByUsername username) with
  | .error _ => return refuse 401 "用户名或密码错误"
  | .ok none => return refuse 401 "用户名或密码错误"
  | .ok (some admin) =>
    match Password.verifyPassword cfg.argon2 (bytesOfText password) admin.passwordHash.toList with
    | .error .panics => return refuse 500 "internal server error"
    | .error _ => return refuse 401 "用户名或密码错误"
    | .ok false => return refuse 401 "用户名或密码错误"
    | .ok true => createSession cfg admin

/-- The fields of a login after the username was trimmed are not empty and not too long. -/
def LoginRequest.valid (req : LoginRequest) : Bool :=
  trimSpace req.username ≠ "" && byteLength (trimSpace req.username) ≤ 128 && req.password ≠ "" &&
    byteLength req.password ≤ 1024

/-- `Login`: the fields are checked, then the limiter of the address, and then the password of the
administrator. -/
def login (cfg : Config) (r : Request) : M Answer :=
  match r.login with
  | none => .ret (refuse 400 "请求格式错误")
  | some req =>
    if req.valid = false then .ret (refuse 400 "用户名或密码格式错误")
    else do
      if ← allow cfg.limiter ("login:ip:" ++ clientIP r) then
        checkPassword cfg (trimSpace req.username) req.password
      else return refuse 429 "请求过于频繁，请稍后再试"

/-- `Logout`: an error of Redis is ignored. -/
def logout (r : Request) : M Answer :=
  match r.cookie sessionCookieName with
  | none => .ret .loggedOut
  | some id => do
    let _ ← perform (.delSession id)
    return .loggedOut

/-- The check of `AdminAuthMiddleware` for a session that was read. -/
def checkCSRF (requireCSRF : Bool) (method : Method) (r : Request) (next : Answer) : Answer :=
  if requireCSRF && method.isMutating then
    match r.cookie csrfCookieName with
    | none => refuse 403 "缺少 CSRF cookie"
    | some token =>
      if verifyCSRFToken r.csrfHeader token then next else refuse 403 "CSRF token 不匹配"
  else next

/-- What the handler of a guarded route does for an administrator: `Me` answers at once. -/
def serve (route : Route) (session : Session) : Answer :=
  if route.handler = .me then
    if session.username = "" then refuse 401 "未登录" else .me session.username
  else .served route.handler (some (session.adminID, session.username))

/-- `AdminAuthMiddleware` in front of the handler of a route. -/
def adminAuth (requireCSRF : Bool) (route : Route) (r : Request) : M Answer :=
  match r.cookie sessionCookieName with
  | none => .ret (refuse 401 "未登录")
  | some id => do
    match ← perform (.getSession id) with
    | .error _ => return refuse 500 "会话读取失败"
    | .ok none => return refuse 401 "会话已过期"
    | .ok (some session) => return checkCSRF requireCSRF route.method r (serve route session)

/-- The answer to a redemption, with the status that belongs to each error of the service. -/
def redeemAnswer : Except GoError RedeemResponse → Answer
  | .error .idempotencyConflict => refuse 409 "幂等 key 与请求不匹配"
  | .error _ => refuse 500 "兑换处理失败"
  | .ok resp =>
    .redeemed (if resp.ok then 200 else if resp.result = .known .rateLimited then 429 else 400) resp

/-- The limiter on the user of a redemption, if it names one. -/
def allowUser (cfg : Config) (label userID : String) : M Bool :=
  if userID = "" then .ret true
  else allow cfg.limiter (label ++ normalizeUserKey cfg.runtime userID)

/-- `RedeemHandler.Redeem`: the limiters of the address and of the user come before the service is
asked. -/
def redeem (cfg : Config) (r : Request) : M Answer :=
  match r.redeem with
  | none => .ret (refuse 400 "请求格式错误")
  | some (userID, code) => do
    if ← allow cfg.limiter ("redeem:ip:" ++ clientIP r) then
      if ← allowUser cfg "redeem:user:" userID then
        return redeemAnswer (← ask (.redeem ⟨userID, code, r.idempotencyKey, r.remoteAddr⟩))
      else return refuse 429 "请求过于频繁，请稍后再试"
    else return refuse 429 "请求过于频繁，请稍后再试"

/-- The answer to a batch redemption, with the status that belongs to each error of the service. -/
def batchRedeemAnswer : Except GoError BatchRedeemResponse → Answer
  | .error .idempotencyConflict => refuse 409 "幂等 key 与请求不匹配"
  | .error _ => refuse 500 "批量兑换处理失败"
  | .ok resp => .batchRedeemed (if resp.ok then 200 else 400) resp

/-- `RedeemHandler.BatchRedeem`: a list without codes is refused, and then the limiters come before
the service. -/
def batchRedeem (cfg : Config) (r : Request) : M Answer :=
  match r.batchRedeem with
  | none => .ret (refuse 400 "请求格式错误")
  | some (userID, codes) =>
    if codes = [] then .ret (refuse 400 "请至少输入一个兑换码")
    else do
      if ← allow cfg.limiter ("redeem:batch:ip:" ++ clientIP r) then
        if ← allowUser cfg "redeem:batch:user:" userID then
          return batchRedeemAnswer
            (← ask (.batchRedeem ⟨userID, codes, r.idempotencyKey, r.remoteAddr⟩))
        else return refuse 429 "请求过于频繁，请稍后再试"
      else return refuse 429 "请求过于频繁，请稍后再试"

/-- A request on a route: through `AdminAuthMiddleware` where the route has it, and else to its
handler. -/
def handle (cfg : Config) (route : Route) (r : Request) : M Answer :=
  match route.requireCSRF with
  | some requireCSRF => adminAuth requireCSRF route r
  | none =>
    match route.handler with
    | .login => login cfg r
    | .logout => logout r
    | .redeem => redeem cfg r
    | .batchRedeem => batchRedeem cfg r
    | handler => .ret (.served handler none)

/-- `admin-create`, with the arguments, the password and the salt. -/
def adminCreate (cfg : Config) (username password : String) (salt : Password.Salt) : M Answer :=
  if trimSpace username = "" then .ret (.exit 1 "username cannot be empty")
  else if byteLength (trimSpace password) < 8 then
    .ret (.exit 1 "password must be at least 8 characters")
  else do
    let hash := Password.hashPassword cfg.argon2 (bytesOfText (trimSpace password)) salt
    match ← perform (.createAdmin (trimSpace username) (String.ofList hash)) with
    | .error _ => return .exit 1 "failed to create admin"
    | .ok _ => return .exit 0 "admin created/updated successfully"

/-! ## The system -/

/-- What runs on the store: requests, and the command that creates administrators. -/
inductive Call where
  | request (route : Route) (r : Request)
  | adminCreate (username password : String) (salt : Password.Salt)

/-- The program of a call: a request that arrives, or an administrator that is created. -/
def callProgram (cfg : Config) : Call → M Answer
  | .request route r => handle cfg route r
  | .adminCreate username password salt => adminCreate cfg username password salt

/-- The states of the system when the calls `ι` run. -/
abbrev State (ι : Type) := Sys ι Empty Store ℕ Write Empty Query Env Query.Ans Env.Ans Answer

/-- The answer of a call that has returned. -/
def State.answer? {ι : Type} (s : State ι) (i : ι) : Option Answer :=
  match s.progs i with
  | some (.ret a) => some a
  | _ => none

/-- A call that has an answer has returned it. -/
theorem State.progs_of_answer? {ι : Type} {s : State ι} {i : ι} {a : Answer}
    (h : s.answer? i = some a) : s.progs i = some (.ret a) := by
  unfold State.answer? at h
  split at h
  · rename_i a' hp
    rw [hp, Option.some.inj h]
  · cases h

/-- The calls that run, and the administrators at the start; Redis is empty. -/
structure Start (ι : Type) where
  config : Config
  calls : ι → Call
  routed : ∀ i route r, calls i = .request route r → route ∈ routes
  admins : Table Admin
  nextAdmin : ℕ
  below : ∀ a ∈ admins, a.id < nextAdmin
  clock : Time

/-- The state at the start: all programs at their beginning, and a store without transactions. -/
def Start.state {ι : Type} (start : Start ι) : State ι where
  db :=
    { tables := ⟨fun _ => none, fun _ => .absent, start.admins⟩
      seq := start.nextAdmin
      clock := start.clock
      free := 1
      owner := fun _ => none
      txs := fun _ _ => none
      log := []
      failed := fun _ => false }
  progs := fun i => some (callProgram start.config (start.calls i))

/-- The state after a run, and nothing if one of its actions is not possible. -/
def Start.run {ι : Type} [DecidableEq ι] (start : Start ι) (as : List (Action ι Choice)) :
    Option (State ι) :=
  start.state.run redis as

end Front

end CdkSystem
