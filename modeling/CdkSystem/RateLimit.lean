import Mathlib.Tactic

/-!
# The rate limiter

`internal/ratelimit`: the script that Redis executes on the sorted set of a key, and the limiter
that calls it. The scores are rational numbers. The set of a key that does not exist is empty.

A member is made of the time of its request and of random characters. Its score is the time in
milliseconds and a small part for the requests of one call, so that a call may ask for several at
once. The set has a time after which Redis drops its key, and the model lets the key be dropped at
any time from then on.
-/

namespace CdkSystem

/-- A sorted set: members with their scores, each member once. -/
abbrev SortedSet := List (String × ℚ)

/-- `ZREMRANGEBYSCORE key -inf max`: the members with a score up to `max` are removed. -/
def zRemRangeByScore (set : SortedSet) (max : ℚ) : SortedSet := set.filter fun e => max < e.2

/-- `ZCARD key`: the number of the members of the sorted set. -/
def zCard (set : SortedSet) : ℤ := set.length

/-- `ZADD key score member`: a member that is there already gets the new score. -/
def zAdd (set : SortedSet) (score : ℚ) (member : String) : SortedSet :=
  set.filter (fun e => e.1 ≠ member) ++ [(member, score)]

/-- A key: its sorted set, and the time after which it is dropped. -/
structure RedisKey where
  set : SortedSet
  expireAt : Option ℤ

/-- A key that does not exist, which Redis treats as an empty set. -/
def RedisKey.absent : RedisKey := ⟨[], none⟩

/-- A key whose time is over may be dropped. -/
def RedisKey.drop (key : RedisKey) (now : ℤ) (dropped : Bool) : RedisKey :=
  if dropped ∧ key.expireAt.any (fun t => t < now) then .absent else key

/-- The arguments of `slidingWindowScript`, in the order in which the script reads them. -/
structure WindowArgs where
  now : ℤ
  windowStart : ℤ
  maxRequests : ℤ
  ttl : ℤ
  requested : ℤ
  members : List String

/-- The loop of the script: the members from the `i`-th on are added. -/
def addRequests (now : ℤ) : ℕ → List String → SortedSet → SortedSet
  | _, [], set => set
  | i, member :: members, set =>
    addRequests now (i + 1) members (zAdd set (now + i / 1000000) member)

/-- `slidingWindowScript`: what is over leaves the window, and the request enters it if it fits. -/
def slidingWindowScript (key : RedisKey) (args : WindowArgs) : ℤ × RedisKey :=
  let set := zRemRangeByScore key.set args.windowStart
  if args.requested < 1 ∨ args.maxRequests < args.requested then (0, { key with set })
  else if args.maxRequests < zCard set + args.requested then (0, { key with set })
  else
    (1, { set := addRequests args.now 1 (args.members.take args.requested.toNat) set
          expireAt := some (args.now + args.ttl) })

/-- `Limiter`, with its window in milliseconds and its number of requests. -/
structure Limiter where
  windowMillis : ℤ
  maxReqs : ℤ

/-- The members of a call: the time and random texts. -/
def members (now count : ℤ) (randomMember : ℕ → String) : List String :=
  (List.range count.toNat).map fun i => toString now ++ ":" ++ randomMember i

/-- `allowN`, at the time `now`: the checks of the arguments, and then the script on the key. -/
def Limiter.allowN (l : Limiter) (key : RedisKey) (now count maxRequests : ℤ)
    (randomMember : ℕ → String) : Except String (Bool × RedisKey) :=
  if l.windowMillis ≤ 0 then .error "rate limit window must be positive"
  else if count ≤ 0 then .error "rate limit count must be positive"
  else if maxRequests ≤ 0 then .error "rate limit maximum must be positive"
  else
    let r := slidingWindowScript key
      { now
        windowStart := now - l.windowMillis
        maxRequests
        ttl := l.windowMillis
        requested := count
        members := members now count randomMember }
    .ok (r.1 = 1, r.2)

/-- `AllowNWithLimit`: so many requests at once, under a limit of the caller's. -/
def Limiter.allowNWithLimit (l : Limiter) (key : RedisKey) (now count maxRequests : ℤ)
    (randomMember : ℕ → String) : Except String (Bool × RedisKey) :=
  l.allowN key now count maxRequests randomMember

/-- `AllowN`: so many requests at once, under the limiter's own limit. -/
def Limiter.allowCount (l : Limiter) (key : RedisKey) (now count : ℤ)
    (randomMember : ℕ → String) : Except String (Bool × RedisKey) :=
  l.allowN key now count l.maxReqs randomMember

/-- `Allow`: a single request, under the limiter's own limit. -/
def Limiter.allow (l : Limiter) (key : RedisKey) (now : ℤ) (randomMember : ℕ → String) :
    Except String (Bool × RedisKey) :=
  l.allowCount key now 1 randomMember

end CdkSystem
