import CdkSystem.Addresses

/-!
# Webhook targets

`ValidateURL`, `isForbiddenIP` and `SafeTransport` of `internal/webhook/ssrf.go`. The URL comes
parsed, and the resolver may answer differently when a target is validated and when it is dialed.

The check is made twice, once when the URL is stored and once by the transport when it connects,
each time on all addresses that the resolver returns at that moment. Hosts may be restricted to a
list of domains. What `http.Client` does with the connection afterwards is left out.
-/

namespace CdkSystem

/-- What `ValidateURL` reads of a parsed URL. -/
structure TargetURL where
  /-- `u.Scheme`. -/
  scheme : List UInt8
  /-- `u.Hostname()`. -/
  hostname : List UInt8
  /-- `u.Port()`. -/
  port : List UInt8
  /-- `u.User != nil`. -/
  hasUser : Bool

/-- A DNS resolver at a time: `net.LookupIP`, with the text of its error. -/
abbrev Resolver := List UInt8 → Except String (List IP)

/-- What the checks of a target use of Go's standard library. -/
structure TargetRuntime where
  /-- `strings.ToLower`. -/
  toLower : List UInt8 → List UInt8
  /-- `IP.String`. -/
  formatIP : IP → String
  /-- The text of the error of `net.SplitHostPort`. -/
  addrError : List UInt8 → String
  /-- The text of a host name. -/
  hostText : List UInt8 → String

/-- `isForbiddenIP`: the predicates of package `net` that forbid an address as a target. -/
def isForbiddenIP (ip : IP) : Bool :=
  if !isGlobalUnicast ip || isLoopback ip || isPrivate ip || isLinkLocalUnicast ip ||
      isLinkLocalMulticast ip then true
  -- Cloud metadata IPs.
  else if ipEqual ip (ipv4 169 254 169 254) then true
  else false

/-- The loop over the allowed domains: the host is one of them, or a name below one of them. -/
def domainAllowed (rt : TargetRuntime) (hostname : List UInt8)
    (allowedDomains : List (List UInt8)) :
    Bool :=
  allowedDomains.any fun d =>
    rt.toLower hostname = rt.toLower d || (0x2E :: rt.toLower d).isSuffixOf (rt.toLower hostname)

/-- `ValidateURL`: the checks of the URL itself, and then of every address that its host resolves
to. -/
def validateURL (rt : TargetRuntime) (lookupIP : Resolver) (parsed : Except String TargetURL)
    (allowedDomains : List (List UInt8)) : Except String Unit :=
  match parsed with
  | .error err => .error ("invalid url: " ++ err)
  | .ok u =>
    if u.scheme ≠ textBytes "https" then .error "only https webhook urls are allowed"
    else if u.hostname = [] then .error "missing host"
    else if u.hasUser then .error "url must not contain credentials"
    else if u.port ≠ [] ∧ u.port ≠ textBytes "443" then .error "custom ports are not allowed"
    else if allowedDomains ≠ [] ∧ domainAllowed rt u.hostname allowedDomains = false then
      .error "domain not in allowlist"
    else
      match lookupIP u.hostname with
      | .error err => .error ("dns lookup failed: " ++ err)
      | .ok ips =>
        match ips.find? isForbiddenIP with
        | some ip => .error ("forbidden ip: " ++ rt.formatIP ip)
        | none => .ok ()

/-- `DialContext` of `SafeTransport`: the address that is dialed. -/
def dialContext (rt : TargetRuntime) (lookupIP : Resolver) (addr : List UInt8) : Except String IP :=
  match splitHostPort addr with
  | none => .error (rt.addrError addr)
  | some (host, _) =>
    match lookupIP host with
    | .error err => .error err
    | .ok ips =>
      match ips.find? isForbiddenIP with
      | some ip => .error ("forbidden ip: " ++ rt.formatIP ip)
      | none =>
        match ips with
        | [] => .error ("no ips resolved for " ++ rt.hostText host)
        -- The first allowed IP.
        | ip :: _ => .ok ip

end CdkSystem
