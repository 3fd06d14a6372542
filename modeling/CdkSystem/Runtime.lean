import CdkSystem.Json
import CdkSystem.Lib.RowLock

/-!
# What surrounds the service

The configuration and the functions of Go's standard library whose results the service only passes
on (`Runtime`), and the questions that it asks the outside world (`Env`): the clock, the random
source, and the HTTP request that delivers a webhook.

Nothing is assumed of these functions: a theorem that needs something of one of them, such as that
the hash separates the requests of a run, has it as a hypothesis. The answers of the outside world
come with the schedule (`Choice`), but for the clock, so that a run is determined by its list of
actions.
-/

namespace CdkSystem

open RowLock (Time)

/-- `Config` of the webhook worker, without what only the HTTP client reads. -/
structure Config where
  maxAttempts : ℤ
  maxDelay : Time
  maxResponseBytes : ℕ

/-- Functions of the standard library, and the configuration. -/
structure Runtime where
  /-- The configuration of the webhook worker. -/
  config : Config
  /-- `crypto/sha256`. -/
  sha256 : List UInt8 → List UInt8
  /-- `netip.ParseAddr`, with the address in its canonical text. -/
  parseAddr : String → Option String
  /-- `strings.ToLower`. -/
  toLower : String → String
  /-- `unicode.IsPrint`. -/
  isPrint : Char → Bool
  /-- `encoding/json` on a whole document. -/
  parseJson : String → Option Json
  /-- `time.Parse` of the layout `time.RFC3339`. -/
  parseTime : String → Option Time
  /-- `Time.Format` of the layout `2006-01-02 15:04:05`. -/
  formatDateTime : Time → String
  /-- `Time.Format` of the layout `time.RFC3339`. -/
  formatTime : Time → String
  /-- The floating-point product `InitialDelay * BackoffFactor ^ (attempts - 1)` of `markFailed`. -/
  backoff : ℤ → Time
  /-- Whether `ValidateURL` accepts a URL for a new batch. -/
  validURL : String → Bool

/-- A runtime whose functions do as little as possible; it hashes to the bytes themselves. -/
def Runtime.simple : Runtime where
  config := { maxAttempts := 3, maxDelay := 60000000, maxResponseBytes := 65536 }
  sha256 := id
  parseAddr := some
  toLower := id
  isPrint := fun _ => true
  parseJson := fun s => some (.str s)
  parseTime := fun _ => none
  formatDateTime := fun _ => ""
  formatTime := fun _ => ""
  backoff := fun _ => 1000000
  validURL := fun _ => true

/-- The part of a webhook's body that describes the batch: `BatchInfo`. -/
structure BatchInfo where
  id : ℕ
  name : String

/-- The body that is sent to webhook targets: `EventBody`. -/
structure EventBody where
  event : String
  redemptionId : ℕ
  code : String
  userId : String
  batch : BatchInfo
  payload : Json
  redeemedAt : String
  eventId : String

/-- What happens to a webhook request outside the service. -/
inductive Delivery where
  /-- `ValidateURL` rejects the target with this error. -/
  | rejected (reason : List UInt8)
  /-- `json.Marshal` or `http.NewRequestWithContext` fails. -/
  | unsent
  /-- `client.Do` fails with this error. -/
  | failed (reason : List UInt8)
  /-- The target answers with this status and body. -/
  | response (status : ℕ) (body : List UInt8)

/-- Questions to the outside world, in which everything but the database is asked. -/
inductive Env where
  /-- `time.Now()`. -/
  | now
  /-- So many random bytes, in hexadecimal digits. -/
  | randomHex (bytes : ℕ)
  /-- A webhook request to the target, signed with the secret when there is one. -/
  | deliver (url secret : String) (body : EventBody)
  /-- A loop that does not end. -/
  | diverge

/-- The answers to the questions; a loop that does not end has none. -/
abbrev Env.Ans : Env → Type
  | .now => Time
  | .randomHex _ => String
  | .deliver _ _ _ => Delivery
  | .diverge => Empty

/-- What is chosen where the model leaves a step open. -/
structure Choice where
  /-- The row that a query with `SKIP LOCKED` or without `ORDER BY` picks. -/
  pick : ℕ
  /-- What the random source returns. -/
  text : String
  /-- What happens to a webhook request. -/
  delivery : Delivery

/-- Whether a text consists of so many bytes in lower-case hexadecimal digits. -/
def isHex (bytes : ℕ) (s : String) : Bool :=
  s.length = 2 * bytes && s.toList.all fun c => c.isDigit || ('a' ≤ c && c ≤ 'f')

/-- The answer to a question at a time. -/
def Env.answer (now : Time) : (e : Env) → Choice → Option e.Ans
  | .now, _ => some now
  | .randomHex n, c => if isHex n c.text then some c.text else none
  | .deliver _ _ _, c => some c.delivery
  | .diverge, _ => none

end CdkSystem
