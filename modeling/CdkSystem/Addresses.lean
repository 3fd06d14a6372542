import Mathlib.Tactic

/-!
# IP addresses

The part of Go's package `net` that the service uses: `IP` with its predicates, `IPNet`, and the
functions that parse them from strings, which are lists of bytes.

An address has four or sixteen bytes, and the predicates first look whether sixteen bytes are a
mapped IPv4 address, as `To4` does. The parser of texts accepts what `net.ParseIP` accepts and
nothing else: no leading zeros, and one `::` at most.
-/

namespace CdkSystem

/-- The bytes of a text in UTF-8, which is what a Go string holds. -/
def textBytes (s : String) : List UInt8 := s.toUTF8.data.toList

/-- `net.IP`: four or sixteen bytes, if it is valid. -/
abbrev IP := List UInt8

/-! ## The bytes of an address -/

/-- The bytes before an IPv4 address in its IPv6 form. -/
def v4InV6Prefix : List UInt8 := List.replicate 10 0 ++ [0xFF, 0xFF]

/-- `net.IPv4`: an IPv4 address in its IPv6 form. -/
def ipv4 (a b c d : UInt8) : IP := v4InV6Prefix ++ [a, b, c, d]

/-- `IP.To4` of package `net`: the four bytes of an address that has four, or sixteen with the IPv4
prefix. -/
def to4 (ip : IP) : Option IP :=
  if ip.length = 4 then some ip
  else if ip.length = 16 ∧ ip.take 12 = v4InV6Prefix then some (ip.drop 12)
  else none

/-- `IP.Equal`: an IPv4 address is equal to its IPv6 form. -/
def ipEqual (ip x : IP) : Bool :=
  if ip.length = x.length then ip = x
  else if ip.length = 4 ∧ x.length = 16 then x.take 12 = v4InV6Prefix && ip = x.drop 12
  else if ip.length = 16 ∧ x.length = 4 then ip.take 12 = v4InV6Prefix && ip.drop 12 = x
  else false

/-- `net.IPv6unspecified`, the address `::` of sixteen zero bytes. -/
def ipv6Unspecified : IP := List.replicate 16 0

/-- `net.IPv6loopback`, the address `::1`: fifteen zero bytes and a one. -/
def ipv6Loopback : IP := List.replicate 15 0 ++ [1]

/-- `IP.IsUnspecified`: the address is `0.0.0.0` or `::`, in either of its forms. -/
def isUnspecified (ip : IP) : Bool := ipEqual ip (ipv4 0 0 0 0) || ipEqual ip ipv6Unspecified

/-- `IP.IsLoopback`: an IPv4 address in `127.0.0.0/8`, or else the address `::1`. -/
def isLoopback (ip : IP) : Bool :=
  match to4 ip with
  | some ip4 => ip4.getD 0 0 = 127
  | none => ipEqual ip ipv6Loopback

/-- `IP.IsPrivate`: the three private blocks of IPv4, or else `fc00::/7`. -/
def isPrivate (ip : IP) : Bool :=
  match to4 ip with
  | some ip4 =>
    ip4.getD 0 0 = 10 || (ip4.getD 0 0 = 172 && ip4.getD 1 0 &&& 0xF0 = 16) ||
      (ip4.getD 0 0 = 192 && ip4.getD 1 0 = 168)
  | none => ip.length = 16 && ip.getD 0 0 &&& 0xFE = 0xFC

/-- `IP.IsMulticast`: an IPv4 address in `224.0.0.0/4`, or else one in `ff00::/8`. -/
def isMulticast (ip : IP) : Bool :=
  match to4 ip with
  | some ip4 => ip4.getD 0 0 &&& 0xF0 = 0xE0
  | none => ip.length = 16 && ip.getD 0 0 = 0xFF

/-- `IP.IsLinkLocalMulticast`: an IPv4 address in `224.0.0.0/24`, or else one that begins with
`ff02`. -/
def isLinkLocalMulticast (ip : IP) : Bool :=
  match to4 ip with
  | some ip4 => ip4.getD 0 0 = 224 && ip4.getD 1 0 = 0 && ip4.getD 2 0 = 0
  | none => ip.length = 16 && ip.getD 0 0 = 0xFF && ip.getD 1 0 &&& 0x0F = 0x02

/-- `IP.IsLinkLocalUnicast`: an IPv4 address in `169.254.0.0/16`, or else one in `fe80::/10`. -/
def isLinkLocalUnicast (ip : IP) : Bool :=
  match to4 ip with
  | some ip4 => ip4.getD 0 0 = 169 && ip4.getD 1 0 = 254
  | none => ip.length = 16 && ip.getD 0 0 = 0xFE && ip.getD 1 0 &&& 0xC0 = 0x80

/-- `IP.IsGlobalUnicast`: an address of either length that is none of the special ones, private ones
included. -/
def isGlobalUnicast (ip : IP) : Bool :=
  (ip.length = 4 || ip.length = 16) && !ipEqual ip (ipv4 255 255 255 255) && !isUnspecified ip &&
    !isLoopback ip && !isMulticast ip && !isLinkLocalUnicast ip

/-! ## Networks -/

/-- `net.IPNet`: an address, and the mask of the bits that all addresses of the network share. -/
structure IPNet where
  ip : IP
  mask : List UInt8
  deriving DecidableEq

/-- `networkNumberAndMask`: both empty for an invalid network. -/
def networkNumberAndMask (n : IPNet) : IP × List UInt8 :=
  let ip := (to4 n.ip).getD n.ip
  if ip.length ≠ 4 ∧ ip.length ≠ 16 then ([], [])
  else if n.mask.length = 4 then if ip.length = 4 then (ip, n.mask) else ([], [])
  else if n.mask.length = 16 then if ip.length = 4 then (ip, n.mask.drop 12) else (ip, n.mask)
  else ([], [])

/-- The bytes of an address under a mask. -/
def maskBytes (ip mask : List UInt8) : List UInt8 := List.zipWith (· &&& ·) ip mask

/-- `IPNet.Contains`: the address has the bytes of the network under the mask, and its length. -/
def IPNet.contains (n : IPNet) (ip : IP) : Bool :=
  let ip := (to4 ip).getD ip
  let (nn, m) := networkNumberAndMask n
  ip.length = nn.length && maskBytes nn m = maskBytes ip m

/-- `net.CIDRMask` of so many ones, as an array of so many bytes. -/
def cidrMask (ones bytes : ℕ) : List UInt8 :=
  (List.range bytes).map fun i => UInt8.ofNat (256 - 2 ^ (8 - min 8 (ones - 8 * i)))

/-! ## Parsing -/

/-- The value of a decimal digit, and nothing for any other byte. -/
def decimalDigit? (c : UInt8) : Option ℕ :=
  if 0x30 ≤ c.toNat ∧ c.toNat ≤ 0x39 then some (c.toNat - 0x30) else none

/-- The value of a hexadecimal digit of either case, and nothing for any other byte. -/
def hexDigit? (c : UInt8) : Option ℕ :=
  if 0x30 ≤ c.toNat ∧ c.toNat ≤ 0x39 then some (c.toNat - 0x30)
  else if 0x61 ≤ c.toNat ∧ c.toNat ≤ 0x66 then some (c.toNat - 0x61 + 10)
  else if 0x41 ≤ c.toNat ∧ c.toNat ≤ 0x46 then some (c.toNat - 0x41 + 10)
  else none

/-- The loop of `parseIPv4Fields`, with the fields so far and the value and length of this one. -/
def parseIPv4From (fields : List UInt8) (val digLen : ℕ) : List UInt8 → Option (List UInt8)
  | [] => if fields.length < 3 then none else some (fields ++ [UInt8.ofNat val])
  | c :: s =>
    match decimalDigit? c with
    | some d =>
      if digLen = 1 ∧ val = 0 then none
      else if 255 < val * 10 + d then none
      else parseIPv4From fields (val * 10 + d) (digLen + 1) s
    | none =>
      if c ≠ 0x2E then none
      -- `.1.2.3`, `1..2.3` and `1.2.3.`.
      else if digLen = 0 ∨ s = [] then none
      else if fields.length = 3 then none
      else parseIPv4From (fields ++ [UInt8.ofNat val]) 0 0 s

/-- `parseIPv4Fields` of `net/netip`: the four bytes of an address in dotted decimal notation. -/
def parseIPv4Fields (s : List UInt8) : Option (List UInt8) := parseIPv4From [] 0 0 s

/-- The hexadecimal digits at the front: their number, their value, and what follows. -/
def parseHexGroup (off acc : ℕ) : List UInt8 → Option (ℕ × ℕ × List UInt8)
  | [] => some (off, acc, [])
  | c :: s =>
    match hexDigit? c with
    | none => some (off, acc, c :: s)
    | some d =>
      if 3 < off ∨ 0xFFFF < acc * 16 + d then none else parseHexGroup (off + 1) (acc * 16 + d) s

/-- The loop of `parseIPv6`: the bytes, the position of the ellipsis, and what was not parsed. There
are at most eight groups. -/
def parseIPv6Groups : ℕ → IP → Option ℕ → List UInt8 → Option (IP × Option ℕ × List UInt8)
  | 0, ip, ellipsis, s => some (ip, ellipsis, s)
  | fuel + 1, ip, ellipsis, s =>
    match parseHexGroup 0 0 s with
    | none => none
    | some (off, acc, rest) =>
      if off = 0 then none
      else if rest.head? = some 0x2E then
        if ellipsis = none ∧ ip.length ≠ 12 then none
        else if 16 < ip.length + 4 then none
        else (parseIPv4Fields s).map fun fields => (ip ++ fields, ellipsis, [])
      else
        let ip := ip ++ [UInt8.ofNat (acc / 256), UInt8.ofNat acc]
        match rest with
        | [] => some (ip, ellipsis, [])
        | c :: rest =>
          if c ≠ 0x3A then none
          else match rest with
            | [] => none
            | d :: rest =>
              if d ≠ 0x3A then parseIPv6Groups fuel ip ellipsis (d :: rest)
              else if ellipsis ≠ none then none
              else if rest = [] then some (ip, some ip.length, [])
              else parseIPv6Groups fuel ip (some ip.length) rest

/-- The end of `parseIPv6`: the ellipsis stands for at least one group of zeros. -/
def expandEllipsis (ip : IP) : Option ℕ → Option IP
  | none => if ip.length < 16 then none else some ip
  | some ellipsis =>
    if ip.length < 16 then
      some (ip.take ellipsis ++ List.replicate (16 - ip.length) 0 ++ ip.drop ellipsis)
    else none

/-- `parseIPv6` on a string without a zone. -/
def parseIPv6 (s : List UInt8) : Option IP :=
  let leading := s.take 2 = [0x3A, 0x3A]
  let s := if leading then s.drop 2 else s
  if leading ∧ s = [] then some ipv6Unspecified
  else
    match parseIPv6Groups 8 [] (if leading then some 0 else none) s with
    | none => none
    | some (ip, ellipsis, rest) => if rest ≠ [] then none else expandEllipsis ip ellipsis

/-- `netip.ParseAddr`, for addresses without a zone: four or sixteen bytes. -/
def parseAddr (s : List UInt8) : Option IP :=
  match s.find? fun c => c = 0x2E || c = 0x3A || c = 0x25 with
  | some 0x2E => parseIPv4Fields s
  | some 0x3A => if 0x25 ∈ s then none else parseIPv6 s
  | _ => none

/-- `net.ParseIP`: the sixteen bytes of an address in either notation, without a zone. -/
def parseIP (s : List UInt8) : Option IP :=
  (parseAddr s).map fun ip => if ip.length = 4 then v4InV6Prefix ++ ip else ip

/-- `dtoi` of package `net` on a whole string: only digits, and no number from `0xFFFFFF` on. -/
def parseDecimal (n : ℕ) : List UInt8 → Option ℕ
  | [] => some n
  | c :: s =>
    match decimalDigit? c with
    | none => none
    | some d => if 0xFFFFFF ≤ n * 10 + d then none else parseDecimal (n * 10 + d) s

/-- `net.ParseCIDR`: the network of a text `address/ones`, of as many bytes as the address was
written with. -/
def parseCIDR (s : List UInt8) : Option IPNet :=
  let addr := s.takeWhile (· ≠ 0x2F)
  match s.dropWhile (· ≠ 0x2F) with
  | [] | [_] => none
  | _ :: mask => do
    let ip ← parseAddr addr
    let n ← parseDecimal 0 mask
    if 8 * ip.length < n then none
    else
      let m := cidrMask n ip.length
      some { ip := maskBytes ip m, mask := m }

/-- `net.SplitHostPort`: the host, without its brackets, and the port after the last colon. -/
def splitHostPort (hostport : List UInt8) : Option (List UInt8 × List UInt8) :=
  -- The port starts after the last colon.
  let port := (hostport.reverse.takeWhile (· ≠ 0x3A)).reverse
  let i := hostport.length - port.length - 1
  if 0x3A ∉ hostport then none
  else if hostport.head? = some 0x5B then
    let e := hostport.idxOf 0x5D
    if 0x5D ∉ hostport then none
    else if e + 1 ≠ i then none
    else if 0x5B ∈ hostport.drop 1 ∨ 0x5D ∈ hostport.drop (e + 1) then none
    else some ((hostport.take e).drop 1, port)
  else
    let host := hostport.take i
    if 0x3A ∈ host then none
    else if 0x5B ∈ hostport ∨ 0x5D ∈ hostport then none
    else some (host, port)

example : parseIP (textBytes "192.168.0.1") = some (ipv4 192 168 0 1) := by decide

example : parseIP (textBytes "fe80::1") =
    some ([0xFE, 0x80] ++ List.replicate 13 0 ++ [1]) := by decide

example : splitHostPort (textBytes "[::1]:80") =
    some (textBytes "::1", textBytes "80") := by decide

end CdkSystem
