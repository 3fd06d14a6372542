import CdkSystem.ClientIP

/-!
# Clients cannot forge their address

The header `X-Forwarded-For` is read from its end, and the scan stops at the first entry that is an
address outside of the trusted networks. So what a client writes in front of the entries that the
trusted proxies append does not matter (`scanForwarded_stop`); and for a peer that is no trusted
proxy the header is not read at all.

The induction is on the entries behind the one at which the scan stops, which are all passed over.
Everything in front of that entry is then left unread, so two headers that differ only there give
the same address, and so does the part of a request that only the client controls. The strings are
arbitrary bytes, and an entry that is no address stops nothing.
-/

namespace CdkSystem

section Scan

variable {trusted : List IPNet} {r : ClientRequest}

/-- The peer is an address in a trusted network. -/
def PeerTrusted (trusted : List IPNet) (remoteAddr : List UInt8) : Prop :=
  ∃ ip, parseIP (remoteHost remoteAddr) = some ip ∧ isTrusted ip trusted = true

/-- An entry of the header is an address outside of the trusted networks. -/
def Outside (trusted : List IPNet) (entry : List UInt8) : Prop :=
  ∃ ip, parseIP (trimSpaceBytes entry) = some ip ∧ isTrusted ip trusted = false

/-- The scan stops at the first entry that is outside of the trusted networks. -/
theorem scanForwarded_stop {host : List UInt8} {entries rest : List (List UInt8)}
    {entry : List UInt8} (hentries : ∀ e ∈ entries, ¬ Outside trusted e)
    (hentry : Outside trusted entry) :
    scanForwarded trusted host (entries ++ entry :: rest) = trimSpaceBytes entry := by
  induction entries with
  | nil =>
    obtain ⟨ip, hip, huntrusted⟩ := hentry
    rw [List.nil_append]
    unfold scanForwarded
    simp only [hip, huntrusted]
    rfl
  | cons e entries ih =>
    have hrest := ih fun e' he' => hentries e' (List.mem_cons_of_mem e he')
    have he := hentries e List.mem_cons_self
    rw [List.cons_append]
    unfold scanForwarded
    cases hip : parseIP (trimSpaceBytes e) with
    | none => simp only [hip, hrest]
    | some ip =>
      have htrusted : isTrusted ip trusted = true := by
        by_contra hnot
        exact he ⟨ip, hip, Bool.eq_false_iff.mpr hnot⟩
      simp only [hip, htrusted, if_true, hrest]

/-- A list with an element that satisfies `P` has a last one. -/
theorem exists_last {α : Type} {P : α → Prop} {xs : List α} (h : ∃ x ∈ xs, P x) :
    ∃ before x after, xs = before ++ x :: after ∧ P x ∧ ∀ y ∈ after, ¬ P y := by
  induction xs with
  | nil =>
    obtain ⟨x, hx, -⟩ := h
    exact absurd hx List.not_mem_nil
  | cons a xs ih =>
    by_cases hrest : ∃ x ∈ xs, P x
    · obtain ⟨before, x, after, hxs, hx, hafter⟩ := ih hrest
      exact ⟨a :: before, x, after, by rw [hxs]; rfl, hx, hafter⟩
    · obtain ⟨x, hx, hP⟩ := h
      rcases List.mem_cons.mp hx with rfl | hx
      · exact ⟨[], x, xs, rfl, hP, fun y hy hPy => hrest ⟨y, hy, hPy⟩⟩
      · exact absurd ⟨x, hx, hP⟩ hrest

/-- For a peer that is no trusted proxy, the result is the peer. -/
theorem extractClientIP_of_not_trusted (h : ¬ PeerTrusted trusted r.remoteAddr) :
    extractClientIP r trusted = remoteHost r.remoteAddr := by
  unfold extractClientIP
  cases hip : parseIP (remoteHost r.remoteAddr) with
  | none => rfl
  | some ip =>
    have huntrusted : isTrusted ip trusted = false := by
      by_contra hnot
      exact h ⟨ip, hip, Bool.not_eq_false _ ▸ hnot⟩
    exact if_pos huntrusted

/-- For a trusted peer and a header that is not empty, the header is scanned from its end. -/
theorem extractClientIP_of_trusted (h : PeerTrusted trusted r.remoteAddr) {xff : List UInt8}
    {more : List (List UInt8)} (hheader : r.forwardedFor = xff :: more) (hne : xff ≠ []) :
    extractClientIP r trusted =
      scanForwarded trusted (remoteHost r.remoteAddr) (splitCommas xff).reverse := by
  obtain ⟨ip, hip, htrusted⟩ := h
  have hhead : r.forwardedFor.headD [] = xff := by rw [hheader]; rfl
  unfold extractClientIP
  simp only [hip, htrusted, hhead, if_neg hne, Bool.true_eq_false, if_false]

/-- The result for a header whose end has an entry outside of the trusted networks is the last such
entry, whatever stands in front. -/
theorem extractClientIP_of_outside (h : PeerTrusted trusted r.remoteAddr)
    (front : List (List UInt8)) {xff s before after entry : List _} {more : List (List UInt8)}
    (hheader : r.forwardedFor = xff :: more) (hne : xff ≠ [])
    (hxff : splitCommas xff = front ++ splitCommas s)
    (hs : splitCommas s = before ++ entry :: after) (hentry : Outside trusted entry)
    (hafter : ∀ e ∈ after, ¬ Outside trusted e) :
    extractClientIP r trusted = trimSpaceBytes entry := by
  have hreverse : (splitCommas xff).reverse =
      after.reverse ++ entry :: (before.reverse ++ front.reverse) := by
    rw [hxff, hs]
    simp
  rw [extractClientIP_of_trusted h hheader hne, hreverse]
  exact scanForwarded_stop (fun e he => hafter e (List.mem_reverse.mp he)) hentry

end Scan

/-- For every list of trusted networks and every request: if the peer is no address in a trusted
network, the result does not depend on the header; and if it is, then for every `p` and every `s`
with an entry that is an address outside of the trusted networks, the results for `p,s` and for `s`
are the last such entry of `s`. The middleware sets the result for the networks that it can parse.
-/
theorem client_address_not_forged (trusted : List IPNet) (remoteAddr : List UInt8) :
    (¬ PeerTrusted trusted remoteAddr → ∀ values values' : List (List UInt8),
      extractClientIP ⟨remoteAddr, values⟩ trusted =
        extractClientIP ⟨remoteAddr, values'⟩ trusted) ∧
    (PeerTrusted trusted remoteAddr →
      ∀ (p s : List UInt8) (more more' : List (List UInt8)),
        (∃ entry ∈ splitCommas s, Outside trusted entry) →
        ∃ before entry after, splitCommas s = before ++ entry :: after ∧
          Outside trusted entry ∧ (∀ e ∈ after, ¬ Outside trusted e) ∧
          extractClientIP ⟨remoteAddr, (p ++ 0x2C :: s) :: more⟩ trusted = trimSpaceBytes entry ∧
          extractClientIP ⟨remoteAddr, s :: more'⟩ trusted = trimSpaceBytes entry) ∧
    ∀ networks values : List (List UInt8), networks.filterMap parseCIDR = trusted →
      trustedProxyMiddleware networks ⟨remoteAddr, values⟩ =
        extractClientIP ⟨remoteAddr, values⟩ trusted := by
  refine ⟨fun h values values' => ?_, fun h p s more more' hs => ?_, ?_⟩
  · rw [extractClientIP_of_not_trusted h, extractClientIP_of_not_trusted h]
  · obtain ⟨before, entry, after, hsplit, hentry, hafter⟩ := exists_last hs
    have hcommas : splitCommas (p ++ 0x2C :: s) = splitCommas p ++ splitCommas s :=
      List.splitOn_append_cons_self p s
    -- The empty string has no entry that is an address.
    have hne : s ≠ [] := by
      rintro rfl
      obtain ⟨e, he, ip, hip, -⟩ := hs
      obtain rfl := List.mem_singleton.mp he
      cases hip
    have hfront : p ++ 0x2C :: s ≠ [] := by simp
    refine ⟨before, entry, after, hsplit, hentry, hafter, ?_, ?_⟩
    · exact extractClientIP_of_outside h (splitCommas p) rfl hfront hcommas hsplit hentry hafter
    · exact extractClientIP_of_outside h [] rfl hne rfl hsplit hentry hafter
  · rintro networks values rfl
    rfl

/-- The network `10.0.0.0/8`, in which the proxies of the example are. -/
def privateNetwork : IPNet := ⟨[10, 0, 0, 0], [255, 0, 0, 0]⟩

/-- A client behind the proxy 10.0.0.1 writes an entry of its own in front of its address. -/
theorem client_address_not_forged_proxy :
    trustedProxyMiddleware [textBytes "10.0.0.0/8"] ⟨textBytes "10.0.0.1:443",
        [textBytes "8.8.8.8" ++ 0x2C :: textBytes " 203.0.113.7, 10.0.0.2"]⟩ =
      extractClientIP ⟨textBytes "10.0.0.1:443", [textBytes " 203.0.113.7, 10.0.0.2"]⟩
        [privateNetwork] := by
  have hpeer : PeerTrusted [privateNetwork] (textBytes "10.0.0.1:443") :=
    ⟨ipv4 10 0 0 1, by decide, by decide⟩
  have houtside : Outside [privateNetwork] (textBytes " 203.0.113.7") :=
    ⟨ipv4 203 0 113 7, by decide, by decide⟩
  obtain ⟨-, htrusted, hmiddleware⟩ :=
    client_address_not_forged [privateNetwork] (textBytes "10.0.0.1:443")
  obtain ⟨_, _, _, -, -, -, hforged, hplain⟩ := htrusted hpeer (textBytes "8.8.8.8")
    (textBytes " 203.0.113.7, 10.0.0.2") [] [] ⟨_, by decide, houtside⟩
  rw [hmiddleware _ _ (by decide), hforged, hplain]

end CdkSystem
