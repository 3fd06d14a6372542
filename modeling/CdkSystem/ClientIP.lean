import CdkSystem.Addresses
import CdkSystem.Text
import CdkSystem.Utf8

/-!
# The address of a client

`TrustedProxyMiddleware` of `internal/observability/middleware.go`, which replaces the address of
the peer by one from the header `X-Forwarded-For` when the peer is a trusted proxy. The strings of a
request are arbitrary bytes.

The networks are those that the configuration names. The middleware goes through the entries of the
header's first value from the right, passes over those that are trusted or no addresses, and takes
the first address that is left; when there is none, the address of the peer stays.
-/

namespace CdkSystem

/-! ## Strings of bytes -/

/-- The string without its leading space, with a bound on the number of characters. -/
def trimLeftBytes : ℕ → List UInt8 → List UInt8
  | 0, s => s
  | fuel + 1, s =>
    match firstRune? s with
    | none => s
    | some c => if isSpace c then trimLeftBytes fuel (s.drop c.utf8Size) else s

/-- The character at the end of the bytes, if they end with one in valid UTF-8. -/
def lastRune? (s : List UInt8) : Option Char :=
  [1, 2, 3, 4].findSome? fun k =>
    (firstRune? (s.drop (s.length - k))).filter fun c => c.utf8Size = k ∧ k ≤ s.length

/-- The string without its trailing space, with a bound on the number of characters. -/
def trimRightBytes : ℕ → List UInt8 → List UInt8
  | 0, s => s
  | fuel + 1, s =>
    match lastRune? s with
    | none => s
    | some c => if isSpace c then trimRightBytes fuel (s.take (s.length - c.utf8Size)) else s

/-- `strings.TrimSpace` on bytes that need not be UTF-8: the white space at both ends is cut off. -/
def trimSpaceBytes (s : List UInt8) : List UInt8 :=
  let s := trimLeftBytes s.length s
  trimRightBytes s.length s

/-- `strings.Split(s, ",")`: the parts between the commas, of which there is at least one. -/
def splitCommas (s : List UInt8) : List (List UInt8) := s.splitOn 0x2C

/-! ## The client -/

/-- What `extractClientIP` reads of a request: the peer's address and the two headers that proxies
set. -/
structure ClientRequest where
  /-- `r.RemoteAddr`. -/
  remoteAddr : List UInt8
  /-- The values of the header `X-Forwarded-For`. -/
  forwardedFor : List (List UInt8)

/-- `isTrusted`: the address is in one of the networks of the configured proxies. -/
def isTrusted (ip : IP) (trusted : List IPNet) : Bool := trusted.any fun n => n.contains ip

/-- The host of the immediate peer: `r.RemoteAddr` without the port. -/
def remoteHost (remoteAddr : List UInt8) : List UInt8 :=
  match splitHostPort remoteAddr with
  | some (host, _) => host
  | none => remoteAddr

/-- The loop over the entries of the header, which starts with the last one. -/
def scanForwarded (trusted : List IPNet) (default : List UInt8) : List (List UInt8) → List UInt8
  | [] => default
  | part :: parts =>
    let ipStr := trimSpaceBytes part
    match parseIP ipStr with
    | none => scanForwarded trusted default parts
    | some ip => if isTrusted ip trusted then scanForwarded trusted default parts else ipStr

/-- `extractClientIP`: the address of the client, where the headers count only if the peer is a
trusted proxy. -/
def extractClientIP (r : ClientRequest) (trusted : List IPNet) : List UInt8 :=
  match parseIP (remoteHost r.remoteAddr) with
  | none => remoteHost r.remoteAddr
  | some remoteIP =>
    -- Only trust the header if the immediate peer is trusted.
    if isTrusted remoteIP trusted = false then remoteHost r.remoteAddr
    else
      -- `r.Header.Get` returns the first value of the header.
      let xff := r.forwardedFor.headD []
      if xff = [] then remoteHost r.remoteAddr
      else scanForwarded trusted (remoteHost r.remoteAddr) (splitCommas xff).reverse

/-- `TrustedProxyMiddleware`: the new `r.RemoteAddr`. Networks that cannot be parsed are left out.
-/
def trustedProxyMiddleware (trusted : List (List UInt8)) (r : ClientRequest) : List UInt8 :=
  extractClientIP r (trusted.filterMap parseCIDR)

end CdkSystem
