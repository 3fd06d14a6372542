import CdkSystem.Ssrf

/-!
# Which addresses webhooks reach

`isForbiddenIP` combines predicates of Go's package `net`, which know fewer blocks of addresses than
there are for special use. `isForbiddenIP_eq_false_iff` says in numbers which addresses pass: the
public ones and those of four blocks (`Overlooked`).

An address is compared as the number that its bytes denote, so a block of addresses is an interval,
and masking the leading bits of a byte is a comparison of numbers (`mask_byte`). IPv4 addresses come
in two forms, with four bytes and mapped into sixteen, and both are classified in the same way
(`IsV4`). The resolver may answer differently when a target is validated and when it is dialed, and
the addresses are checked at both times; so a target outside of the public addresses is reached
exactly through an overlooked block (`webhooks_public_iff`).
-/

namespace CdkSystem

/-! ## Blocks of addresses -/

/-- The number whose digits in base 256 are the bytes. -/
def addressValue (ip : IP) : ℕ := Nat.ofDigits 256 (ip.reverse.map UInt8.toNat)

/-- A block of addresses: those whose first bits are the same as in the network address. -/
structure Block where
  network : ℕ
  bits : ℕ

/-- An address with so many bits is in a block. -/
def Block.Mem (width : ℕ) (b : Block) (n : ℕ) : Prop :=
  n / 2 ^ (width - b.bits) = b.network / 2 ^ (width - b.bits)

/-- The number of an IPv4 address, with its first byte as the highest one. -/
def v4Value (a b c d : ℕ) : ℕ := 2 ^ 24 * a + 2 ^ 16 * b + 2 ^ 8 * c + d

/-- The blocks of IPv4 addresses that are not public. -/
def nonPublicV4 : List Block :=
  [⟨v4Value 0 0 0 0, 8⟩, ⟨v4Value 10 0 0 0, 8⟩, ⟨v4Value 100 64 0 0, 10⟩, ⟨v4Value 127 0 0 0, 8⟩,
    ⟨v4Value 169 254 0 0, 16⟩, ⟨v4Value 172 16 0 0, 12⟩, ⟨v4Value 192 168 0 0, 16⟩,
    ⟨v4Value 198 18 0 0, 15⟩, ⟨v4Value 224 0 0 0, 4⟩, ⟨v4Value 240 0 0 0, 4⟩]

/-- The blocks of IPv6 addresses that are not public: `::`, `::1`, `fc00::/7`, `fe80::/10` and
`ff00::/8`. -/
def nonPublicV6 : List Block :=
  [⟨0, 128⟩, ⟨1, 128⟩, ⟨0xFC00 * 2 ^ 112, 7⟩, ⟨0xFE80 * 2 ^ 112, 10⟩, ⟨0xFF00 * 2 ^ 112, 8⟩]

/-- The address is in a block of IPv4 addresses that are not public. -/
def NonPublicV4 (n : ℕ) : Prop := ∃ b ∈ nonPublicV4, b.Mem 32 n

/-- An IPv4 address that passes the checks although it is not public: in 0.0.0.0/8, 100.64.0.0/10,
198.18.0.0/15 or 240.0.0.0/4, except for the unspecified and the broadcast address. -/
def OverlookedV4 (n : ℕ) : Prop :=
  ((⟨v4Value 0 0 0 0, 8⟩ : Block).Mem 32 n ∧ n ≠ v4Value 0 0 0 0) ∨
    (⟨v4Value 100 64 0 0, 10⟩ : Block).Mem 32 n ∨ (⟨v4Value 198 18 0 0, 15⟩ : Block).Mem 32 n ∨
      ((⟨v4Value 240 0 0 0, 4⟩ : Block).Mem 32 n ∧ n ≠ v4Value 255 255 255 255)

/-- The IPv4 address, in either form, satisfies `P`. -/
def HasV4 (P : ℕ → Prop) (ip : IP) : Prop :=
  (ip.length = 4 ∧ P (addressValue ip)) ∨
    (ip.length = 16 ∧ addressValue ip / 2 ^ 32 = 0xFFFF ∧ P (addressValue ip % 2 ^ 32))

/-- The address is not public: it is in a block that is not reachable from everywhere. -/
def NonPublic (ip : IP) : Prop :=
  HasV4 NonPublicV4 ip ∨ (ip.length = 16 ∧ ∃ b ∈ nonPublicV6, b.Mem 128 (addressValue ip))

/-- The address is not public, but passes the checks. -/
def Overlooked (ip : IP) : Prop := HasV4 OverlookedV4 ip

/-! ## Numbers of addresses -/

section Values

variable {ip : IP} {a b c d : UInt8}

/-- The number of bytes that stand after others. -/
theorem addressValue_append (xs ys : IP) :
    addressValue (xs ++ ys) = addressValue xs * 256 ^ ys.length + addressValue ys := by
  unfold addressValue
  rw [List.reverse_append, List.map_append, Nat.ofDigits_append, List.length_map,
    List.length_reverse]
  ring

/-- The number of a byte and more of them. -/
theorem addressValue_cons (a : UInt8) (ip : IP) :
    addressValue (a :: ip) = a.toNat * 256 ^ ip.length + addressValue ip := by
  have hsingle : addressValue [a] = a.toNat := by simp [addressValue]
  rw [← List.singleton_append, addressValue_append, hsingle]

/-- The number is bounded by the number of bytes. -/
theorem addressValue_lt (ip : IP) : addressValue ip < 256 ^ ip.length := by
  have hlt := Nat.ofDigits_lt_base_pow_length (b := 256) (l := ip.reverse.map UInt8.toNat)
    (by norm_num) fun x hx => by
      obtain ⟨u, -, rfl⟩ := List.mem_map.mp hx
      exact u.toNat_lt
  rw [List.length_map, List.length_reverse] at hlt
  exact hlt

/-- Addresses of one length with the same number are the same. -/
theorem addressValue_inj {xs ys : IP} (hlen : xs.length = ys.length)
    (h : addressValue xs = addressValue ys) : xs = ys := by
  induction xs generalizing ys with
  | nil => exact (List.length_eq_zero_iff.mp hlen.symm).symm
  | cons x xs ih =>
    cases ys with
    | nil => cases hlen
    | cons y ys =>
      have hlen' : xs.length = ys.length := Nat.succ.inj hlen
      rw [addressValue_cons, addressValue_cons, ← hlen'] at h
      have hx := addressValue_lt xs
      have hy := addressValue_lt ys
      rw [← hlen'] at hy
      have hpos : 0 < 256 ^ xs.length := by positivity
      have hdiv : x.toNat = y.toNat := by
        have hleft : (x.toNat * 256 ^ xs.length + addressValue xs) / 256 ^ xs.length = x.toNat := by
          rw [Nat.mul_comm, Nat.mul_add_div hpos, Nat.div_eq_of_lt hx, Nat.add_zero]
        have hright : (y.toNat * 256 ^ xs.length + addressValue ys) / 256 ^ xs.length =
            y.toNat := by
          rw [Nat.mul_comm, Nat.mul_add_div hpos, Nat.div_eq_of_lt hy, Nat.add_zero]
        rw [← hleft, h, hright]
      rw [hdiv] at h
      rw [UInt8.toNat_inj.mp hdiv, ih hlen' (Nat.add_left_cancel h)]

/-- The number of four bytes is that of the IPv4 address. -/
theorem addressValue_four (a b c d : UInt8) :
    addressValue [a, b, c, d] = v4Value a.toNat b.toNat c.toNat d.toNat := by
  simp only [addressValue_cons, List.length_cons, List.length_nil]
  unfold v4Value
  simp [addressValue]
  ring

/-- An address with the prefix of IPv4 addresses. -/
theorem addressValue_mapped (a b c d : UInt8) :
    addressValue (ipv4 a b c d) = 0xFFFF * 2 ^ 32 + v4Value a.toNat b.toNat c.toNat d.toNat := by
  have hfront : addressValue v4InV6Prefix = 0xFFFF := by decide
  unfold ipv4
  rw [addressValue_append, hfront, addressValue_four]
  norm_num

/-- The number of four bytes is below 2^32. -/
theorem v4Value_lt (a b c d : UInt8) :
    v4Value a.toNat b.toNat c.toNat d.toNat < 2 ^ 32 := by
  have ha := a.toNat_lt
  have hb := b.toNat_lt
  have hc := c.toNat_lt
  have hd := d.toNat_lt
  unfold v4Value
  omega

end Values

/-! ## IPv4 addresses -/

/-- The bytes under the masks of the predicates. -/
theorem mask_facts : ∀ n < 256,
    ((UInt8.ofNat n &&& 0xF0 = 16 ↔ n / 16 = 1) ∧ (UInt8.ofNat n &&& 0xF0 = 0xE0 ↔ n / 16 = 14)) ∧
      ((UInt8.ofNat n &&& 0xFE = 0xFC ↔ n / 2 = 126) ∧
        (UInt8.ofNat n &&& 0xC0 = 0x80 ↔ n / 64 = 2)) := by
  decide +kernel

/-- A byte under the masks of the predicates. -/
theorem mask_byte (a : UInt8) :
    ((a &&& 0xF0 = 16 ↔ a.toNat / 16 = 1) ∧ (a &&& 0xF0 = 0xE0 ↔ a.toNat / 16 = 14)) ∧
      ((a &&& 0xFE = 0xFC ↔ a.toNat / 2 = 126) ∧ (a &&& 0xC0 = 0x80 ↔ a.toNat / 64 = 2)) := by
  have h := mask_facts a.toNat a.toNat_lt
  rw [UInt8.ofNat_toNat] at h
  exact h

/-- What the predicates check of the bytes of an IPv4 address. -/
structure PassesV4 (a b c d : ℕ) : Prop where
  broadcast : ¬ (a = 255 ∧ b = 255 ∧ c = 255 ∧ d = 255)
  unspecified : ¬ (a = 0 ∧ b = 0 ∧ c = 0 ∧ d = 0)
  loopback : a ≠ 127
  multicast : a / 16 ≠ 14
  linkLocal : ¬ (a = 169 ∧ b = 254)
  privateA : a ≠ 10
  privateB : ¬ (a = 172 ∧ b / 16 = 1)
  privateC : ¬ (a = 192 ∧ b = 168)

section V4

variable {a b c d : ℕ}

/-- A block whose network is determined by at most the first byte. -/
theorem mem_first_iff {x k : ℕ} (hk : k ≤ 8) (hb : b < 256) (hc : c < 256) (hd : d < 256) :
    (⟨v4Value x 0 0 0, k⟩ : Block).Mem 32 (v4Value a b c d) ↔
      a / 2 ^ (8 - k) = x / 2 ^ (8 - k) := by
  have hpow : 2 ^ (32 - k) = 2 ^ 24 * 2 ^ (8 - k) := by
    rw [← pow_add]
    congr 1
    omega
  have hfirst : v4Value a b c d / 2 ^ 24 = a := by
    unfold v4Value
    omega
  have hnetwork : v4Value x 0 0 0 / 2 ^ 24 = x := by
    unfold v4Value
    omega
  unfold Block.Mem
  rw [hpow, ← Nat.div_div_eq_div_mul, ← Nat.div_div_eq_div_mul, hfirst, hnetwork]

/-- A block whose network is determined by the first byte and more bits of the second one. -/
theorem mem_second_iff {x y k : ℕ} (hk : k ≤ 8) (hy : y < 256) (hb : b < 256) (hc : c < 256)
    (hd : d < 256) :
    (⟨v4Value x y 0 0, 8 + k⟩ : Block).Mem 32 (v4Value a b c d) ↔
      a = x ∧ b / 2 ^ (8 - k) = y / 2 ^ (8 - k) := by
  have hpow : 2 ^ (32 - (8 + k)) = 2 ^ 16 * 2 ^ (8 - k) := by
    rw [← pow_add]
    congr 1
    omega
  have hbytes : v4Value a b c d / 2 ^ 16 = 256 * a + b := by
    unfold v4Value
    omega
  have hnetwork : v4Value x y 0 0 / 2 ^ 16 = 256 * x + y := by
    unfold v4Value
    omega
  unfold Block.Mem
  rw [hpow, ← Nat.div_div_eq_div_mul, ← Nat.div_div_eq_div_mul, hbytes, hnetwork]
  interval_cases k <;> norm_num only <;> omega

/-- The numbers of IPv4 addresses in the blocks. -/
theorem nonPublicV4_iff (hb : b < 256) (hc : c < 256) (hd : d < 256) :
    NonPublicV4 (v4Value a b c d) ↔
      a = 0 ∨ a = 10 ∨ (a = 100 ∧ b / 64 = 1) ∨ a = 127 ∨ (a = 169 ∧ b = 254) ∨
        (a = 172 ∧ b / 16 = 1) ∨ (a = 192 ∧ b = 168) ∨ (a = 198 ∧ b / 2 = 9) ∨ a / 16 = 14 ∨
          a / 16 = 15 := by
  have hfirst : ∀ x k, k ≤ 8 → ((⟨v4Value x 0 0 0, k⟩ : Block).Mem 32 (v4Value a b c d) ↔
      a / 2 ^ (8 - k) = x / 2 ^ (8 - k)) := fun x k hk => mem_first_iff hk hb hc hd
  have hsecond : ∀ x y k, k ≤ 8 → y < 256 →
      ((⟨v4Value x y 0 0, 8 + k⟩ : Block).Mem 32 (v4Value a b c d) ↔
        a = x ∧ b / 2 ^ (8 - k) = y / 2 ^ (8 - k)) := fun x y k hk hy =>
    mem_second_iff hk hy hb hc hd
  unfold NonPublicV4 nonPublicV4
  simp only [List.mem_cons, List.not_mem_nil, or_false, exists_eq_or_imp, exists_eq_left]
  rw [hfirst 0 8 le_rfl, hfirst 10 8 le_rfl, hsecond 100 64 2 (by norm_num) (by norm_num),
    hfirst 127 8 le_rfl, hsecond 169 254 8 le_rfl (by norm_num),
    hsecond 172 16 4 (by norm_num) (by norm_num), hsecond 192 168 8 le_rfl (by norm_num),
    hsecond 198 18 7 (by norm_num) (by norm_num), hfirst 224 4 (by norm_num),
    hfirst 240 4 (by norm_num)]
  norm_num only [Nat.div_one]

/-- The numbers of IPv4 addresses that are overlooked. -/
theorem overlookedV4_iff (hb : b < 256) (hc : c < 256) (hd : d < 256) :
    OverlookedV4 (v4Value a b c d) ↔
      (a = 0 ∧ ¬ (b = 0 ∧ c = 0 ∧ d = 0)) ∨ (a = 100 ∧ b / 64 = 1) ∨ (a = 198 ∧ b / 2 = 9) ∨
        (a / 16 = 15 ∧ ¬ (a = 255 ∧ b = 255 ∧ c = 255 ∧ d = 255)) := by
  -- Every block is a condition on the first byte, or on it and the upper bits of the second one.
  have hfirst : ∀ x k, k ≤ 8 → ((⟨v4Value x 0 0 0, k⟩ : Block).Mem 32 (v4Value a b c d) ↔
      a / 2 ^ (8 - k) = x / 2 ^ (8 - k)) := fun x k hk => mem_first_iff hk hb hc hd
  have hsecond : ∀ x y k, k ≤ 8 → y < 256 →
      ((⟨v4Value x y 0 0, 8 + k⟩ : Block).Mem 32 (v4Value a b c d) ↔
        a = x ∧ b / 2 ^ (8 - k) = y / 2 ^ (8 - k)) := fun x y k hk hy =>
    mem_second_iff hk hy hb hc hd
  have hzero : v4Value a b c d = v4Value 0 0 0 0 ↔ a = 0 ∧ b = 0 ∧ c = 0 ∧ d = 0 := by
    unfold v4Value
    omega
  have hbroadcast : v4Value a b c d = v4Value 255 255 255 255 ↔
      a = 255 ∧ b = 255 ∧ c = 255 ∧ d = 255 := by
    unfold v4Value
    omega
  unfold OverlookedV4
  rw [hfirst 0 8 le_rfl, hsecond 100 64 2 (by norm_num) (by norm_num),
    hsecond 198 18 7 (by norm_num) (by norm_num), hfirst 240 4 (by norm_num), Ne, hzero, Ne,
    hbroadcast]
  norm_num only [Nat.div_one]
  constructor
  · rintro (⟨hfirst, hnot⟩ | hrest)
    · exact Or.inl ⟨hfirst, fun h => hnot ⟨hfirst, h⟩⟩
    · exact Or.inr hrest
  · rintro (⟨hfirst, hnot⟩ | hrest)
    · exact Or.inl ⟨hfirst, fun h => hnot h.2⟩
    · exact Or.inr hrest

/-- The predicates let the public and the overlooked addresses pass. -/
theorem passesV4_iff (hb : b < 256) (hc : c < 256) (hd : d < 256) :
    PassesV4 a b c d ↔ ¬ NonPublicV4 (v4Value a b c d) ∨ OverlookedV4 (v4Value a b c d) := by
  rw [nonPublicV4_iff hb hc hd, overlookedV4_iff hb hc hd]
  constructor
  · intro h
    -- Every block is checked by a predicate or overlooked.
    refine not_or_of_imp ?_
    rintro (h0 | h10 | h100 | h127 | h169 | h172 | h192 | h198 | h224 | h240)
    · exact Or.inl ⟨h0, fun hrest => h.unspecified ⟨h0, hrest⟩⟩
    · exact absurd h10 h.privateA
    · exact Or.inr (Or.inl h100)
    · exact absurd h127 h.loopback
    · exact absurd h169 h.linkLocal
    · exact absurd h172 h.privateB
    · exact absurd h192 h.privateC
    · exact Or.inr (Or.inr (Or.inl h198))
    · exact absurd h224 h.multicast
    · exact Or.inr (Or.inr (Or.inr ⟨h240, h.broadcast⟩))
  · intro h
    have himp := h.neg_resolve_left
    clear h
    refine ⟨?_, ?_, ?_, ?_, ?_, ?_, ?_, ?_⟩ <;>
    · intro hchecked
      have hoverlooked := himp (by omega)
      omega

end V4

/-! ## The classification -/

section Classification

variable {ip : IP} {a b c d : UInt8}

/-- An address that is an IPv4 address, and is compared as such. -/
structure IsV4 (ip : IP) (a b c d : UInt8) : Prop where
  to4 : to4 ip = some [a, b, c, d]
  length : ip.length = 4 ∨ ip.length = 16
  equal : ∀ x y z w, ipEqual ip (ipv4 x y z w) = decide (a = x ∧ b = y ∧ c = z ∧ d = w)
  notUnspecified : ipEqual ip ipv6Unspecified = false

/-- Four bytes are an IPv4 address in its short form. -/
theorem isV4_four (a b c d : UInt8) : IsV4 [a, b, c, d] a b c d := by
  refine ⟨rfl, Or.inl rfl, fun x y z w => ?_, by simp [ipEqual, ipv6Unspecified, v4InV6Prefix]⟩
  simp [ipEqual, ipv4, v4InV6Prefix]

/-- An IPv4 address in its IPv6 form. -/
theorem isV4_mapped (a b c d : UInt8) : IsV4 (ipv4 a b c d) a b c d := by
  refine ⟨rfl, Or.inr rfl, fun x y z w => ?_,
    by simp [ipEqual, ipv4, ipv6Unspecified, v4InV6Prefix]⟩
  simp [ipEqual, ipv4, v4InV6Prefix]

/-- What the predicates check of an IPv4 address, in numbers. -/
theorem IsV4.isForbiddenIP_eq_false_iff (h : IsV4 ip a b c d) :
    isForbiddenIP ip = false ↔ PassesV4 a.toNat b.toNat c.toNat d.toNat := by
  have hbyte : ∀ x y : UInt8, x = y ↔ x.toNat = y.toNat := fun x y => UInt8.toNat_inj.symm
  have hlen : (ip.length = 4 || ip.length = 16) = true := by
    rcases h.length with hlen | hlen <;> simp [hlen]
  unfold isForbiddenIP isGlobalUnicast isUnspecified isLoopback isPrivate isMulticast
    isLinkLocalUnicast isLinkLocalMulticast
  simp only [h.to4, h.equal, h.notUnspecified, hlen, List.getD_cons_zero, List.getD_cons_succ]
  have hif : ∀ p q : Bool, (if p = true then true else if q = true then true else false) = false ↔
      ¬ (p = true ∨ q = true) := by decide
  rw [hif]
  simp only [Bool.true_and, Bool.or_false, Bool.or_eq_true, Bool.and_eq_true, Bool.not_eq_true',
    Bool.and_eq_false_iff, Bool.not_eq_false', decide_eq_true_eq, (mask_byte a).1.2,
    (mask_byte b).1.1, hbyte]
  norm_num only [UInt8.toNat_ofNat]
  push Not
  constructor
  · rintro ⟨⟨⟨⟨⟨⟨⟨⟨⟨hbroadcast, hunspecified⟩, hloopback⟩, hmulticast⟩, hlink⟩, -⟩,
      ⟨hprivA, hprivB⟩, hprivC⟩, -⟩, -⟩, -⟩
    exact ⟨fun h => hbroadcast h.1 h.2.1 h.2.2.1 h.2.2.2,
      fun h => hunspecified h.1 h.2.1 h.2.2.1 h.2.2.2, hloopback, hmulticast,
      fun h => hlink h.1 h.2, hprivA, fun h => hprivB h.1 h.2, fun h => hprivC h.1 h.2⟩
  · intro h
    -- A link-local multicast address is a multicast address, and 169.254.169.254 is link-local.
    have hmulticast : a.toNat ≠ 224 := fun h224 => h.multicast (by rw [h224])
    have hlink : a.toNat = 169 → b.toNat ≠ 254 := fun h169 h254 => h.linkLocal ⟨h169, h254⟩
    have hprivate : (a.toNat ≠ 10 ∧ (a.toNat = 172 → b.toNat / 16 ≠ 1)) ∧
        (a.toNat = 192 → b.toNat ≠ 168) :=
      ⟨⟨h.privateA, fun h172 hb => h.privateB ⟨h172, hb⟩⟩, fun h192 hb => h.privateC ⟨h192, hb⟩⟩
    refine ⟨⟨⟨⟨⟨⟨⟨⟨⟨?_, ?_⟩, h.loopback⟩, h.multicast⟩, hlink⟩, h.loopback⟩, hprivate⟩, hlink⟩,
      fun h224 => absurd h224.1 hmulticast⟩, fun h169 h254 => absurd h254 (hlink h169)⟩
    · exact fun ha hb hc hd => h.broadcast ⟨ha, hb, hc, hd⟩
    · exact fun ha hb hc hd => h.unspecified ⟨ha, hb, hc, hd⟩

/-- The sixteen bytes of an address that is no IPv4 address in its IPv6 form. -/
structure IsV6 (ip : IP) : Prop where
  length : ip.length = 16
  notMapped : ip.take 12 ≠ v4InV6Prefix

/-- What the predicates check of an IPv6 address, in numbers. -/
theorem IsV6.isForbiddenIP_eq_false_iff (h : IsV6 (a :: b :: ip)) :
    isForbiddenIP (a :: b :: ip) = false ↔
      (a :: b :: ip ≠ ipv6Unspecified ∧ a :: b :: ip ≠ ipv6Loopback) ∧
        (a.toNat / 2 ≠ 126 ∧ a.toNat ≠ 255 ∧ ¬ (a.toNat = 254 ∧ b.toNat / 64 = 2)) := by
  have hlen := h.length
  -- Sixteen bytes without the prefix are no IPv4 address, so only the IPv6 checks remain.
  have hto4 : to4 (a :: b :: ip) = none := by
    unfold to4
    rw [if_neg (by omega), if_neg fun hmapped => h.notMapped hmapped.2]
  have hequal : ∀ x y z w, ipEqual (a :: b :: ip) (ipv4 x y z w) = false := by
    intro x y z w
    have hipv4 : (ipv4 x y z w).length = 16 := rfl
    unfold ipEqual
    rw [if_pos (hlen.trans hipv4.symm), decide_eq_false_iff_not]
    intro heq
    refine h.notMapped ?_
    rw [heq]
    rfl
  have hself : ∀ x : IP, x.length = 16 → ipEqual (a :: b :: ip) x = decide (a :: b :: ip = x) := by
    intro x hx
    unfold ipEqual
    rw [if_pos (hlen.trans hx.symm)]
  have hbyte : ∀ x y : UInt8, x = y ↔ x.toNat = y.toNat := fun x y => UInt8.toNat_inj.symm
  have hif : ∀ p q : Bool, (if p = true then true else if q = true then true else false) = false ↔
      ¬ (p = true ∨ q = true) := by decide
  unfold isForbiddenIP isGlobalUnicast isUnspecified isLoopback isPrivate isMulticast
    isLinkLocalUnicast isLinkLocalMulticast
  simp only [hto4, hequal, hself ipv6Unspecified rfl, hself ipv6Loopback rfl, hlen,
    List.getD_cons_zero, List.getD_cons_succ]
  rw [hif]
  simp only [Bool.false_or, Bool.not_false, Bool.and_true, Bool.or_eq_true, Bool.and_eq_true,
    Bool.not_eq_true', Bool.and_eq_false_iff, Bool.not_eq_false', decide_eq_true_eq,
    (mask_byte a).2.1, (mask_byte b).2.2, hbyte a 255, hbyte a 254, decide_true, true_and,
    Bool.or_true, Bool.false_eq_true, or_false]
  norm_num only [UInt8.toNat_ofNat]
  push Not
  constructor
  · rintro ⟨⟨⟨⟨⟨⟨⟨⟨-, hunspecified⟩, hloopback⟩, hmulticast⟩, hlink⟩, -⟩, hlocal⟩, -⟩, -⟩
    exact ⟨⟨hunspecified, hloopback⟩, hlocal, hmulticast, hlink⟩
  · rintro ⟨⟨hunspecified, hloopback⟩, hlocal, hmulticast, hlink⟩
    exact ⟨⟨⟨⟨⟨⟨⟨⟨Bool.true_eq_false.mp, hunspecified⟩, hloopback⟩, hmulticast⟩, hlink⟩, hloopback⟩,
      hlocal⟩, hlink⟩, fun h255 => absurd h255 hmulticast⟩

/-- The numbers of IPv6 addresses in the blocks. -/
theorem IsV6.nonPublicV6_iff (h : IsV6 (a :: b :: ip)) :
    (∃ blk ∈ nonPublicV6, blk.Mem 128 (addressValue (a :: b :: ip))) ↔
      (a :: b :: ip = ipv6Unspecified ∨ a :: b :: ip = ipv6Loopback) ∨
        a.toNat / 2 = 126 ∨ (a.toNat = 254 ∧ b.toNat / 64 = 2) ∨ a.toNat = 255 := by
  have hlen : ip.length = 14 := by
    have hlength := h.length
    simp only [List.length_cons] at hlength
    omega
  have hrest : addressValue ip < 2 ^ 112 := by
    have hlt := addressValue_lt ip
    rw [hlen] at hlt
    exact hlt
  have hvalue : addressValue (a :: b :: ip) =
      a.toNat * 2 ^ 120 + (b.toNat * 2 ^ 112 + addressValue ip) := by
    rw [addressValue_cons, addressValue_cons, List.length_cons, hlen]
    norm_num
  have hb := b.toNat_lt
  have hbytes : addressValue (a :: b :: ip) / 2 ^ 112 = 256 * a.toNat + b.toNat := by
    rw [hvalue]
    omega
  have hequal : ∀ x : IP, x.length = 16 →
      (addressValue (a :: b :: ip) = addressValue x ↔ a :: b :: ip = x) := fun x hx =>
    ⟨fun heq => addressValue_inj (h.length.trans hx.symm) heq, fun heq => heq ▸ rfl⟩
  have hzero : addressValue ipv6Unspecified = 0 := by decide
  have hone : addressValue ipv6Loopback = 1 := by decide
  have hunspecified := hequal ipv6Unspecified rfl
  have hloopback := hequal ipv6Loopback rfl
  rw [hzero] at hunspecified
  rw [hone] at hloopback
  -- The other blocks are determined by the first two bytes.
  have hfirst : ∀ x k, k ≤ 16 →
      ((⟨x * 2 ^ 112, k⟩ : Block).Mem 128 (addressValue (a :: b :: ip)) ↔
        (256 * a.toNat + b.toNat) / 2 ^ (16 - k) = x / 2 ^ (16 - k)) := by
    intro x k hk
    have hpow : 2 ^ (128 - k) = 2 ^ 112 * 2 ^ (16 - k) := by
      rw [← pow_add]
      congr 1
      omega
    unfold Block.Mem
    rw [hpow, ← Nat.div_div_eq_div_mul, ← Nat.div_div_eq_div_mul, hbytes,
      Nat.mul_div_cancel x (by norm_num)]
  unfold nonPublicV6
  simp only [List.mem_cons, List.not_mem_nil, or_false, exists_eq_or_imp, exists_eq_left]
  rw [hfirst 0xFC00 7 (by norm_num), hfirst 0xFE80 10 (by norm_num), hfirst 0xFF00 8 (by norm_num)]
  unfold Block.Mem
  norm_num only [Nat.div_one]
  have hlocal : (256 * a.toNat + b.toNat) / 512 = 126 ↔ a.toNat / 2 = 126 := by omega
  have hlink : (256 * a.toNat + b.toNat) / 64 = 1018 ↔ a.toNat = 254 ∧ b.toNat / 64 = 2 := by omega
  have hmulticast : (256 * a.toNat + b.toNat) / 256 = 255 ↔ a.toNat = 255 := by omega
  rw [hunspecified, hloopback, hlocal, hlink, hmulticast, or_assoc]

/-- An IPv6 address is no IPv4 address in its IPv6 form. -/
theorem IsV6.not_hasV4 (h : IsV6 ip) (P : ℕ → Prop) : ¬ HasV4 P ip := by
  rintro (⟨hlen, -⟩ | ⟨-, hmapped, -⟩)
  · have hlength := h.length
    omega
  · have htake : (ip.take 12).length = 12 := by rw [List.length_take, h.length]; rfl
    have hdrop : (ip.drop 12).length = 4 := by rw [List.length_drop, h.length]
    have hlt := addressValue_lt (ip.drop 12)
    rw [hdrop] at hlt
    have hsplit := addressValue_append (ip.take 12) (ip.drop 12)
    rw [List.take_append_drop, hdrop] at hsplit
    have hfront : addressValue v4InV6Prefix = 0xFFFF := by decide
    refine h.notMapped (addressValue_inj (htake.trans rfl) ?_)
    rw [hfront, ← hmapped, hsplit]
    omega

/-- The predicates let the public IPv6 addresses pass. -/
theorem IsV6.passes_iff (h : IsV6 ip) :
    isForbiddenIP ip = false ↔ ¬ NonPublic ip ∨ Overlooked ip := by
  obtain ⟨a, b, ip, rfl⟩ : ∃ a b rest, ip = a :: b :: rest := by
    have hlen := h.length
    cases ip with
    | nil => cases hlen
    | cons a ip =>
      cases ip with
      | nil => cases hlen
      | cons b ip => exact ⟨a, b, ip, rfl⟩
  have hnon : NonPublic (a :: b :: ip) ↔
      ∃ blk ∈ nonPublicV6, blk.Mem 128 (addressValue (a :: b :: ip)) := by
    unfold NonPublic
    rw [or_iff_right (h.not_hasV4 NonPublicV4), and_iff_right h.length]
  unfold Overlooked
  rw [or_iff_left (h.not_hasV4 OverlookedV4), hnon, h.isForbiddenIP_eq_false_iff, h.nonPublicV6_iff,
    not_or, not_or, not_or, not_or]
  exact and_congr_right fun _ => ⟨fun hbytes => ⟨hbytes.1, hbytes.2.2, hbytes.2.1⟩,
    fun hbytes => ⟨hbytes.1, hbytes.2.2, hbytes.2.1⟩⟩

/-- A property of an IPv4 address is one of the number of its four bytes. -/
theorem hasV4_four (P : ℕ → Prop) :
    HasV4 P [a, b, c, d] ↔ P (v4Value a.toNat b.toNat c.toNat d.toNat) := by
  unfold HasV4
  rw [addressValue_four]
  simp

/-- An IPv4 address in its IPv6 form, in numbers. -/
theorem hasV4_mapped (P : ℕ → Prop) :
    HasV4 P (ipv4 a b c d) ↔ P (v4Value a.toNat b.toNat c.toNat d.toNat) := by
  have hlen : (ipv4 a b c d).length = 16 := rfl
  have hlt := v4Value_lt a b c d
  have hdiv : addressValue (ipv4 a b c d) / 2 ^ 32 = 0xFFFF := by
    rw [addressValue_mapped]
    omega
  have hmod : addressValue (ipv4 a b c d) % 2 ^ 32 = v4Value a.toNat b.toNat c.toNat d.toNat := by
    rw [addressValue_mapped]
    omega
  unfold HasV4
  rw [hlen, hdiv, hmod]
  simp

/-- An IPv4 address in its IPv6 form is in none of the blocks of IPv6 addresses. -/
theorem not_nonPublicV6_mapped (a b c d : UInt8) :
    ¬ ∃ blk ∈ nonPublicV6, blk.Mem 128 (addressValue (ipv4 a b c d)) := by
  have hlt := v4Value_lt a b c d
  rw [addressValue_mapped]
  unfold nonPublicV6
  simp only [List.mem_cons, List.not_mem_nil, or_false, exists_eq_or_imp, exists_eq_left, Block.Mem]
  norm_num only
  omega

/-- The checks of an IPv4 address in either form. -/
theorem IsV4.passes_iff (h : IsV4 ip a b c d)
    (hhas : ∀ P : ℕ → Prop, HasV4 P ip ↔ P (v4Value a.toNat b.toNat c.toNat d.toNat))
    (hv6 : ¬ (ip.length = 16 ∧ ∃ blk ∈ nonPublicV6, blk.Mem 128 (addressValue ip))) :
    isForbiddenIP ip = false ↔ ¬ NonPublic ip ∨ Overlooked ip := by
  unfold NonPublic Overlooked
  rw [or_iff_left hv6, hhas NonPublicV4, hhas OverlookedV4, h.isForbiddenIP_eq_false_iff]
  exact passesV4_iff b.toNat_lt c.toNat_lt d.toNat_lt

/-- The addresses that are not forbidden are those of four or sixteen bytes that are public or
overlooked. -/
theorem isForbiddenIP_eq_false_iff (ip : IP) :
    isForbiddenIP ip = false ↔
      (ip.length = 4 ∨ ip.length = 16) ∧ (¬ NonPublic ip ∨ Overlooked ip) := by
  by_cases h4 : ip.length = 4
  · rw [and_iff_right (Or.inl h4)]
    obtain ⟨a, b, c, d, rfl⟩ := List.length_eq_four.mp h4
    exact (isV4_four a b c d).passes_iff hasV4_four fun h16 => by cases h16.1
  by_cases h16 : ip.length = 16
  · rw [and_iff_right (Or.inr h16)]
    by_cases hmapped : ip.take 12 = v4InV6Prefix
    · have hdrop : (ip.drop 12).length = 4 := by rw [List.length_drop, h16]
      obtain ⟨a, b, c, d, hlast⟩ := List.length_eq_four.mp hdrop
      obtain rfl : ip = ipv4 a b c d := by
        rw [← List.take_append_drop 12 ip, hmapped, hlast]
        rfl
      exact (isV4_mapped a b c d).passes_iff hasV4_mapped fun hv6 =>
        not_nonPublicV6_mapped a b c d hv6.2
    · exact IsV6.passes_iff ⟨h16, hmapped⟩
  · have hglobal : isGlobalUnicast ip = false := by
      unfold isGlobalUnicast
      simp [h4, h16]
    unfold isForbiddenIP
    rw [hglobal]
    simp [h4, h16]

end Classification

/-! ## Targets -/

/-- The address passes the checks: it has four or sixteen bytes, and is public or overlooked. -/
def Passes (ip : IP) : Prop :=
  (ip.length = 4 ∨ ip.length = 16) ∧ (¬ NonPublic ip ∨ Overlooked ip)

/-- The URL is one that `ValidateURL` allows before it asks the resolver. -/
structure URLAllowed (rt : TargetRuntime) (allowedDomains : List (List UInt8)) (u : TargetURL) :
    Prop where
  scheme : u.scheme = textBytes "https"
  hostname : u.hostname ≠ []
  noUser : u.hasUser = false
  port : u.port = [] ∨ u.port = textBytes "443"
  domain : allowedDomains = [] ∨ ∃ d ∈ allowedDomains,
    rt.toLower u.hostname = rt.toLower d ∨ 0x2E :: rt.toLower d <:+ rt.toLower u.hostname

section Targets

variable {rt : TargetRuntime} {lookupIP : Resolver} {parsed : Except String TargetURL}
  {allowedDomains : List (List UInt8)} {ips : List IP} {ip : IP}

/-- No address is forbidden if all pass. -/
theorem find?_isForbiddenIP_eq_none : ips.find? isForbiddenIP = none ↔ ∀ ip ∈ ips, Passes ip := by
  rw [List.find?_eq_none]
  refine forall₂_congr fun ip _ => ?_
  rw [Bool.not_eq_true, isForbiddenIP_eq_false_iff]
  rfl

/-- The loop over the allowed domains, as a condition on one of them. -/
theorem domainAllowed_eq_true {hostname : List UInt8} :
    domainAllowed rt hostname allowedDomains = true ↔ ∃ d ∈ allowedDomains,
      rt.toLower hostname = rt.toLower d ∨ 0x2E :: rt.toLower d <:+ rt.toLower hostname := by
  unfold domainAllowed
  simp only [List.any_eq_true, Bool.or_eq_true, decide_eq_true_eq, List.isSuffixOf_iff_suffix]

/-- When `ValidateURL` accepts a URL: all of its checks pass, for every address of the host. -/
theorem validateURL_eq_ok :
    validateURL rt lookupIP parsed allowedDomains = .ok () ↔
      ∃ u ips, parsed = .ok u ∧ URLAllowed rt allowedDomains u ∧ lookupIP u.hostname = .ok ips ∧
        ∀ ip ∈ ips, Passes ip := by
  unfold validateURL
  constructor
  · intro h
    cases parsed with
    | error err => cases h
    | ok u =>
      simp only at h
      -- One case for every check of `ValidateURL`; only the path through all of them accepts.
      split_ifs at h with hscheme hhost huser hport hdomain
      cases hlookup : lookupIP u.hostname with
      | error err =>
        rw [hlookup] at h
        cases h
      | ok ips =>
        simp only [hlookup] at h
        cases hfind : ips.find? isForbiddenIP with
        | some ip =>
          rw [hfind] at h
          cases h
        | none =>
          refine ⟨u, ips, rfl, ⟨not_not.mp hscheme, hhost, Bool.not_eq_true _ ▸ huser, ?_, ?_⟩,
            hlookup, find?_isForbiddenIP_eq_none.mp hfind⟩
          · by_contra hnot
            rw [not_or] at hnot
            exact hport hnot
          · by_cases hempty : allowedDomains = []
            · exact Or.inl hempty
            · refine Or.inr (domainAllowed_eq_true.mp ?_)
              by_contra hnot
              exact hdomain ⟨hempty, Bool.not_eq_true _ ▸ hnot⟩
  · rintro ⟨u, ips, rfl, hallowed, hlookup, hips⟩
    -- In the other direction no check fails.
    have hport : ¬ (u.port ≠ [] ∧ u.port ≠ textBytes "443") := by
      rintro ⟨hne, hother⟩
      rcases hallowed.port with hport | hport
      · exact hne hport
      · exact hother hport
    have hdomain : ¬ (allowedDomains ≠ [] ∧
        domainAllowed rt u.hostname allowedDomains = false) := by
      rintro ⟨hne, hfalse⟩
      rcases hallowed.domain with hempty | hdomain
      · exact hne hempty
      · rw [domainAllowed_eq_true.mpr hdomain] at hfalse
        cases hfalse
    simp only
    rw [if_neg (not_not.mpr hallowed.scheme), if_neg hallowed.hostname,
      if_neg (by simp [hallowed.noUser]), if_neg hport, if_neg hdomain, hlookup]
    simp only [find?_isForbiddenIP_eq_none.mpr hips]

/-- Which address is dialed: the first one of the host, if all of them pass. -/
theorem dialContext_eq_ok {addr : List UInt8} :
    dialContext rt lookupIP addr = .ok ip ↔
      ∃ host port rest, splitHostPort addr = some (host, port) ∧
        lookupIP host = .ok (ip :: rest) ∧ ∀ x ∈ ip :: rest, Passes x := by
  unfold dialContext
  constructor
  · intro h
    cases hsplit : splitHostPort addr with
    | none =>
      rw [hsplit] at h
      cases h
    | some parts =>
      obtain ⟨host, port⟩ := parts
      simp only [hsplit] at h
      cases hlookup : lookupIP host with
      | error err =>
        rw [hlookup] at h
        cases h
      | ok ips =>
        simp only [hlookup] at h
        cases hfind : ips.find? isForbiddenIP with
        | some x =>
          rw [hfind] at h
          cases h
        | none =>
          simp only [hfind] at h
          -- The first address is dialed, after all of them were checked.
          cases ips with
          | nil => cases h
          | cons x rest =>
            obtain rfl := Except.ok.inj h
            exact ⟨host, port, rest, rfl, hlookup, find?_isForbiddenIP_eq_none.mp hfind⟩
  · rintro ⟨host, port, rest, hsplit, hlookup, hips⟩
    simp only [hsplit, hlookup, find?_isForbiddenIP_eq_none.mpr hips]

/-- An address that the predicates overlook is not public. -/
theorem nonPublic_of_overlooked (h : Overlooked ip) : NonPublic ip := by
  have hv4 : ∀ n, OverlookedV4 n → NonPublicV4 n := by
    rintro n (⟨hblock, -⟩ | hblock | hblock | ⟨hblock, -⟩) <;>
      exact ⟨_, by simp [nonPublicV4], hblock⟩
  rcases h with ⟨hlen, hn⟩ | ⟨hlen, hmapped, hn⟩
  · exact Or.inl (Or.inl ⟨hlen, hv4 _ hn⟩)
  · exact Or.inl (Or.inr ⟨hlen, hmapped, hv4 _ hn⟩)

end Targets

/-- For every URL, all allowed domains, and any answers of the resolver when the URL is validated
and when its host is dialed: no address is dialed that is not public exactly if the URL is not
allowed, an answer has an address that is forbidden, or the first address of the second answer is
not overlooked. -/
theorem webhooks_public_iff (rt : TargetRuntime) (parsed : Except String TargetURL)
    (allowedDomains : List (List UInt8)) (validation connection : Resolver) (addr : List UInt8) :
    (∀ ip, validateURL rt validation parsed allowedDomains = .ok () →
        dialContext rt connection addr = .ok ip → ¬ NonPublic ip) ↔
      ¬ ((∃ u ips, parsed = .ok u ∧ URLAllowed rt allowedDomains u ∧
            validation u.hostname = .ok ips ∧ ∀ ip ∈ ips, Passes ip) ∧
          ∃ host port ip rest, splitHostPort addr = some (host, port) ∧
            connection host = .ok (ip :: rest) ∧ (∀ x ∈ ip :: rest, Passes x) ∧ Overlooked ip) := by
  constructor
  · rintro h ⟨hvalid, host, port, ip, rest, hsplit, hlookup, hips, hoverlooked⟩
    have hdial : dialContext rt connection addr = .ok ip :=
      dialContext_eq_ok.mpr ⟨host, port, rest, hsplit, hlookup, hips⟩
    exact h ip (validateURL_eq_ok.mpr hvalid) hdial (nonPublic_of_overlooked hoverlooked)
  · intro h ip hvalid hdial hnon
    obtain ⟨host, port, rest, hsplit, hlookup, hips⟩ := dialContext_eq_ok.mp hdial
    rcases (hips ip List.mem_cons_self).2 with hpublic | hoverlooked
    · exact hpublic hnon
    · exact h ⟨validateURL_eq_ok.mp hvalid, host, port, ip, rest, hsplit, hlookup, hips,
        hoverlooked⟩

/-- Functions of the standard library that leave host names as they are. -/
def TargetRuntime.simple : TargetRuntime where
  toLower := id
  formatIP := fun _ => ""
  addrError := fun _ => ""
  hostText := fun _ => ""

/-- The URL `https://hooks.example.com`, which passes all checks of its text. -/
def hooksURL : TargetURL :=
  { scheme := textBytes "https", hostname := textBytes "hooks.example.com", port := [],
    hasUser := false }

/-- A resolver that answers with the address 100.100.100.200. -/
def metadataResolver : Resolver := fun _ => .ok [[100, 100, 100, 200]]

/-- A target that resolves to the metadata service at 100.100.100.200 is accepted and dialed. -/
theorem metadata_service_dialed :
    ¬ ∀ ip, validateURL .simple metadataResolver (.ok hooksURL) [] = .ok () →
      dialContext .simple metadataResolver (textBytes "hooks.example.com:443") = .ok ip →
      ¬ NonPublic ip := by
  intro h
  have hvalid : validateURL .simple metadataResolver (.ok hooksURL) [] = .ok () := by rfl
  have hdial : dialContext .simple metadataResolver (textBytes "hooks.example.com:443") =
      .ok [100, 100, 100, 200] := by rfl
  refine h _ hvalid hdial (Or.inl (Or.inl ⟨rfl, ⟨v4Value 100 64 0 0, 10⟩, by simp [nonPublicV4],
    ?_⟩))
  unfold Block.Mem
  decide

end CdkSystem
