import CdkSystem.RateLimit

/-!
# The rate limiter counts exactly

After any calls, the members that the set of a key has behind a window's start are as many as the
calls admitted since then have asked for (`Tracks`): a member's score lies between the time of its
call and the next millisecond, so the eviction, which includes the window's start, keeps exactly the
members of the calls at or after it, and the key is dropped only when all of them are before it.
-/

namespace CdkSystem

/-- A call on a key: its time, count and limit, its random texts, and whether Redis drops the key
before it if its time is over. -/
structure RateCall where
  now : ℤ
  count : ℤ
  limit : ℤ
  randomMember : ℕ → String
  dropped : Bool

/-- The members that a call adds when it is admitted. -/
def RateCall.members (c : RateCall) : List String := CdkSystem.members c.now c.count c.randomMember

/-- A call: whether it is admitted, and the key after it. A call with an error leaves the key. -/
def Limiter.call (l : Limiter) (key : RedisKey) (c : RateCall) : Bool × RedisKey :=
  match l.allowN (key.drop c.now c.dropped) c.now c.count c.limit c.randomMember with
  | .ok r => r
  | .error _ => (false, key)

/-- The calls with whether they were admitted, oldest first, and the key after them. -/
def Limiter.calls (l : Limiter) (cs : List RateCall) : List (RateCall × Bool) × RedisKey :=
  cs.foldl (fun r c => (r.1 ++ [(c, (l.call r.2 c).1)], (l.call r.2 c).2)) ([], .absent)

/-- Calls one after the other, with counts below a million, and with members that are all
different. -/
structure Calls (cs : List RateCall) : Prop where
  times : cs.Pairwise fun c c' => c.now ≤ c'.now
  counts : ∀ c ∈ cs, 1 ≤ c.count ∧ c.count < 1000000
  limits : ∀ c ∈ cs, 1 ≤ c.limit
  members : (cs.flatMap RateCall.members).Nodup

/-- What admitted calls have asked for from one time to another. -/
def charged (history : List (RateCall × Bool)) (first last : ℤ) : ℤ :=
  ((history.filter fun r => r.2 && decide (first ≤ r.1.now ∧ r.1.now ≤ last)).map
    fun r => r.1.count).sum

/-! ## The set of a key -/

section Sets

variable {set : SortedSet} {lo now : ℤ} {ms : List String} {i : ℕ}

/-- The number of members whose scores are above a time. -/
def above (set : SortedSet) (lo : ℤ) : ℤ := set.countP fun e => (lo : ℚ) < e.2

/-- The eviction keeps the members above the window's start. -/
theorem above_zRemRangeByScore {windowStart : ℤ} (h : windowStart ≤ lo) :
    above (zRemRangeByScore set windowStart) lo = above set lo := by
  unfold above zRemRangeByScore
  rw [List.countP_filter]
  congr 1
  refine List.countP_congr fun e _ => ?_
  have hle : (windowStart : ℚ) ≤ lo := by exact_mod_cast h
  simp only [Bool.and_eq_true, decide_eq_true_eq, and_iff_left_iff_imp]
  exact fun hlt => hle.trans_lt hlt

/-- After the eviction all members are above the window's start. -/
theorem zCard_zRemRangeByScore {windowStart : ℤ} :
    zCard (zRemRangeByScore set windowStart) = above set windowStart := by
  unfold zCard above zRemRangeByScore
  rw [List.countP_eq_length_filter]

/-- Members that are not in the set are added behind it. -/
theorem addRequests_eq (hnew : ∀ m ∈ ms, ∀ e ∈ set, e.1 ≠ m) (hnodup : ms.Nodup) :
    addRequests now i ms set =
      set ++ (ms.zipIdx i).map fun p => (p.1, (now : ℚ) + (p.2 : ℚ) / 1000000) := by
  induction ms generalizing i set with
  | nil => simp [addRequests]
  | cons m ms ih =>
    rw [List.nodup_cons] at hnodup
    have hfilter : set.filter (fun e => e.1 ≠ m) = set := by
      rw [List.filter_eq_self]
      exact fun e he => decide_eq_true (hnew m (by simp) e he)
    have hnew' : ∀ m' ∈ ms, ∀ e ∈ zAdd set (now + i / 1000000) m, e.1 ≠ m' := by
      intro m' hm' e he
      unfold zAdd at he
      rw [hfilter, List.mem_append, List.mem_singleton] at he
      rcases he with he | rfl
      · exact hnew m' (by simp [hm']) e he
      · rintro rfl
        exact hnodup.1 hm'
    rw [addRequests, ih hnew' hnodup.2]
    unfold zAdd
    rw [hfilter, List.zipIdx_cons, List.map_cons, List.append_assoc, List.singleton_append]

/-- The members of a call are above a time if the call is not before it. -/
theorem above_added (hlen : i + ms.length ≤ 1000000) (hi : 1 ≤ i) :
    above ((ms.zipIdx i).map fun p => (p.1, (now : ℚ) + (p.2 : ℚ) / 1000000)) lo =
      if lo ≤ now then (ms.length : ℤ) else 0 := by
  unfold above
  rw [List.countP_map]
  split_ifs with hle
  · -- The scores lie behind the time of the call.
    have hall : ∀ p ∈ ms.zipIdx i, (lo : ℚ) < now + (p.2 : ℚ) / 1000000 := by
      intro p hp
      have hpos : 1 ≤ p.2 := hi.trans (List.mem_zipIdx hp).1
      have hlo : (lo : ℚ) ≤ now := by exact_mod_cast hle
      have hp' : (0 : ℚ) < p.2 := by exact_mod_cast hpos
      have : (0 : ℚ) < (p.2 : ℚ) / 1000000 := by positivity
      linarith
    have hcount : List.countP ((fun e : String × ℚ => decide ((lo : ℚ) < e.2)) ∘
        fun p : String × ℕ => (p.1, (now : ℚ) + (p.2 : ℚ) / 1000000)) (ms.zipIdx i) =
        (ms.zipIdx i).length :=
      List.countP_eq_length.mpr fun p hp => decide_eq_true (hall p hp)
    rw [hcount, List.length_zipIdx]
  · -- They lie before the next millisecond.
    have hall : ∀ p ∈ ms.zipIdx i, ¬ (lo : ℚ) < now + (p.2 : ℚ) / 1000000 := by
      intro p hp
      have hlt : p.2 < 1000000 := (List.mem_zipIdx hp).2.1.trans_le hlen
      have hlo : (now : ℚ) + 1 ≤ lo := by exact_mod_cast (not_le.mp hle)
      have hp' : (p.2 : ℚ) < 1000000 := by exact_mod_cast hlt
      have : (p.2 : ℚ) / 1000000 < 1 := by
        rw [div_lt_one (by norm_num)]
        exact hp'
      rw [not_lt]
      linarith
    have hcount : List.countP ((fun e : String × ℚ => decide ((lo : ℚ) < e.2)) ∘
        fun p : String × ℕ => (p.1, (now : ℚ) + (p.2 : ℚ) / 1000000)) (ms.zipIdx i) = 0 :=
      List.countP_eq_zero.mpr fun p hp => by simpa using hall p hp
    rw [hcount]
    rfl

/-- What is in a set before or behind another one counts on its own. -/
theorem above_append (set set' : SortedSet) :
    above (set ++ set') lo = above set lo + above set' lo := by
  unfold above
  rw [List.countP_append]
  push_cast
  rfl

end Sets

/-! ## What calls have asked for -/

section Charges

variable {h : List (RateCall × Bool)} {first first' last last' : ℤ} {c : RateCall} {b : Bool}

/-- A further call adds its count if it is admitted within the times. -/
theorem charged_append :
    charged (h ++ [(c, b)]) first last =
      charged h first last + if b = true ∧ first ≤ c.now ∧ c.now ≤ last then c.count else 0 := by
  unfold charged
  rw [List.filter_append, List.map_append, List.sum_append]
  congr 1
  by_cases hb : b = true ∧ first ≤ c.now ∧ c.now ≤ last
  · have hin : (b && decide (first ≤ c.now ∧ c.now ≤ last)) = true := by simp [hb]
    rw [if_pos hb, List.filter_singleton, hin]
    simp
  · have hout : (b && decide (first ≤ c.now ∧ c.now ≤ last)) = false := by
      rw [Bool.eq_false_iff]
      simpa only [ne_eq, Bool.and_eq_true, decide_eq_true_eq] using hb
    rw [if_neg hb, List.filter_singleton, hout]
    rfl

/-- After the last call no time charges more. -/
theorem charged_last (htimes : ∀ r ∈ h, r.1.now ≤ last) (hle : last ≤ last') :
    charged h first last' = charged h first last := by
  unfold charged
  congr 2
  refine List.filter_congr fun r hr => ?_
  have hr' := htimes r hr
  simp [hr', hr'.trans hle]

/-- A longer window charges no less than a shorter one with the same end. -/
theorem charged_le (hcounts : ∀ r ∈ h, 1 ≤ r.1.count) (hle : first ≤ first') :
    charged h first' last ≤ charged h first last := by
  induction h using List.reverseRecOn with
  | nil => exact le_refl 0
  | append_singleton h r ih =>
    have hlt := ih fun r hr => hcounts r (by simp [hr])
    have hr : 1 ≤ r.1.count := hcounts r (by simp)
    rw [charged_append, charged_append]
    split_ifs with hin hin'
    · omega
    · exact absurd ⟨hin.1, hle.trans hin.2.1, hin.2.2⟩ hin'
    · omega
    · omega

/-- Before the window there are no charges. -/
theorem charged_eq_zero (hbefore : ∀ r ∈ h, r.2 = true → r.1.now < first) :
    charged h first last = 0 := by
  unfold charged
  have hnone : h.filter (fun r => r.2 && decide (first ≤ r.1.now ∧ r.1.now ≤ last)) = [] := by
    rw [List.filter_eq_nil_iff]
    intro r hr hin
    simp only [Bool.and_eq_true, decide_eq_true_eq] at hin
    have := hbefore r hr hin.1
    omega
  rw [hnone]
  rfl

end Charges

/-! ## The invariant -/

/-- After a history that ends at a time, the set of the key has the members that the window needs.
-/
structure Tracks (l : Limiter) (h : List (RateCall × Bool)) (key : RedisKey) (now : ℤ) : Prop where
  times : ∀ r ∈ h, r.1.now ≤ now
  counts : ∀ lo, now - l.windowMillis ≤ lo → above key.set lo = charged h lo now
  expiry : ∀ t, key.expireAt = some t → ∀ r ∈ h, r.2 = true → r.1.now + l.windowMillis ≤ t
  members : ∀ e ∈ key.set, ∃ r ∈ h, e.1 ∈ r.1.members

section Steps

variable {l : Limiter} {h : List (RateCall × Bool)} {key : RedisKey} {now now' : ℤ} {c : RateCall}

/-- Without calls there is no key, and nothing is charged. -/
theorem tracks_absent : Tracks l [] .absent now where
  times r hr := absurd hr List.not_mem_nil
  counts lo _ := rfl
  expiry t ht := by cases ht
  members e he := absurd he List.not_mem_nil

/-- Time passes, and the key goes on to hold what is charged. -/
theorem Tracks.wait (ht : Tracks l h key now) (hle : now ≤ now') : Tracks l h key now' where
  times r hr := (ht.times r hr).trans hle
  counts lo hlo := by
    have hcount := ht.counts lo (by omega)
    rw [hcount, charged_last ht.times hle]
  expiry := ht.expiry
  members := ht.members

/-- A key is dropped only when all its calls are before the window. -/
theorem Tracks.drop (ht : Tracks l h key now) {b : Bool} : Tracks l h (key.drop now b) now := by
  unfold RedisKey.drop
  split_ifs with hdrop
  · obtain ⟨-, hover⟩ := hdrop
    rw [Option.any_eq_true] at hover
    obtain ⟨t, hexpire, hlt⟩ := hover
    have hlt' : t < now := of_decide_eq_true hlt
    refine ⟨ht.times, fun lo hlo => ?_, fun t ht => ?_, fun e he => absurd he List.not_mem_nil⟩
    swap
    · cases ht
    have hnone : charged h lo now = 0 := by
      refine charged_eq_zero fun r hr hb => ?_
      have := ht.expiry t hexpire r hr hb
      omega
    rw [hnone]
    rfl
  · exact ht

/-- The eviction takes what is before the window. -/
theorem Tracks.evict (ht : Tracks l h key now) :
    Tracks l h { key with set := zRemRangeByScore key.set ((now - l.windowMillis : ℤ) : ℚ) }
      now where
  times := ht.times
  counts lo hlo := by
    rw [← ht.counts lo hlo]
    exact above_zRemRangeByScore hlo
  expiry := ht.expiry
  members e he := ht.members e (List.mem_filter.mp he).1

/-- A call that is not admitted adds nothing. -/
theorem Tracks.deny (ht : Tracks l h key c.now) : Tracks l (h ++ [(c, false)]) key c.now where
  times r hr := by
    rcases List.mem_append.mp hr with hr | hr
    · exact ht.times r hr
    · rw [List.mem_singleton.mp hr]
  counts lo hlo := by
    rw [ht.counts lo hlo, charged_append]
    simp
  expiry t hexpire r hr hb := by
    rcases List.mem_append.mp hr with hr | hr
    · exact ht.expiry t hexpire r hr hb
    · rw [List.mem_singleton.mp hr] at hb
      cases hb
  members e he := by
    obtain ⟨r, hr, hmem⟩ := ht.members e he
    exact ⟨r, by simp [hr], hmem⟩

/-- A call has a member for each request. -/
theorem RateCall.length_members (c : RateCall) (hcount : 0 ≤ c.count) :
    (c.members.length : ℤ) = c.count := by
  unfold RateCall.members CdkSystem.members
  rw [List.length_map, List.length_range]
  omega

/-- An admitted call adds its members to the key, as many as it is charged for. -/
theorem Tracks.admit (ht : Tracks l h key c.now)
    (hcount : 1 ≤ c.count ∧ c.count < 1000000) (hnodup : c.members.Nodup)
    (hnew : ∀ r ∈ h, ∀ m ∈ c.members, m ∉ r.1.members) :
    Tracks l (h ++ [(c, true)])
      { set := addRequests c.now 1 c.members key.set, expireAt := some (c.now + l.windowMillis) }
      c.now := by
  have hfresh : ∀ m ∈ c.members, ∀ e ∈ key.set, e.1 ≠ m := by
    rintro m hm e he rfl
    obtain ⟨r, hr, hmem⟩ := ht.members e he
    exact hnew r hr e.1 hm hmem
  have hlength := c.length_members (by omega)
  -- The members are new, so they are appended to the set.
  have hset : addRequests c.now 1 c.members key.set = key.set ++
      (c.members.zipIdx 1).map fun p => (p.1, (c.now : ℚ) + (p.2 : ℚ) / 1000000) :=
    addRequests_eq hfresh hnodup
  refine ⟨fun r hr => ?_, fun lo hlo => ?_, fun t hexpire r hr _ => ?_, fun e he => ?_⟩
  · rcases List.mem_append.mp hr with hr | hr
    · exact ht.times r hr
    · rw [List.mem_singleton.mp hr]
  · have hlen : 1 + c.members.length ≤ 1000000 := by omega
    rw [hset, above_append, ht.counts lo hlo, above_added hlen (le_refl 1), hlength, charged_append]
    simp
  · -- The key lives for a window from this call on, and no call before it is later.
    obtain rfl : c.now + l.windowMillis = t := Option.some.inj hexpire
    rcases List.mem_append.mp hr with hr | hr
    · have := ht.times r hr
      omega
    · rw [List.mem_singleton.mp hr]
  · rw [hset] at he
    rcases List.mem_append.mp he with he | he
    · obtain ⟨r, hr, hmem⟩ := ht.members e he
      exact ⟨r, by simp [hr], hmem⟩
    · obtain ⟨p, hp, rfl⟩ := List.mem_map.mp he
      have hmem : p.1 ∈ c.members := List.fst_mem_of_mem_zipIdx hp
      exact ⟨(c, true), by simp, hmem⟩

/-- The members of a call that are in a set. -/
def RateCall.entries (c : RateCall) (set : SortedSet) : ℤ := set.countP fun e => e.1 ∈ c.members

/-- The members in a set before or behind another one count on their own. -/
theorem RateCall.entries_append (set set' : SortedSet) :
    c.entries (set ++ set') = c.entries set + c.entries set' := by
  unfold RateCall.entries
  rw [List.countP_append]
  push_cast
  rfl

/-- All added members are those of the call. -/
theorem RateCall.entries_added :
    c.entries ((c.members.zipIdx 1).map fun p => (p.1, (c.now : ℚ) + (p.2 : ℚ) / 1000000)) =
      c.members.length := by
  unfold RateCall.entries
  rw [List.countP_map, Nat.cast_inj]
  have hall : ∀ p ∈ c.members.zipIdx 1, p.1 ∈ c.members := fun p hp => List.fst_mem_of_mem_zipIdx hp
  have hcount := List.countP_eq_length.mpr fun p hp => decide_eq_true (hall p hp)
  rw [List.length_zipIdx] at hcount
  exact hcount

/-- A call is admitted exactly if its count fits next to the charges of its window, and has an entry
for all of its count or for nothing. -/
structure Limiter.Decides (l : Limiter) (h : List (RateCall × Bool)) (c : RateCall)
    (r : Bool × RedisKey) : Prop where
  admitted : r.1 = true ↔
    c.count ≤ c.limit ∧ c.count + charged h (c.now - l.windowMillis) c.now ≤ c.limit
  entries : c.entries r.2.set = if r.1 then c.count else 0
  tracks : Tracks l (h ++ [(c, r.1)]) r.2 c.now

/-- A call without an error: the script after the eviction. -/
theorem Limiter.call_eq (hw : 0 < l.windowMillis) (hcount : 1 ≤ c.count) (hlimit : 1 ≤ c.limit)
    {key' : RedisKey} (hdrop : key.drop c.now c.dropped = key') {set : SortedSet}
    (hset : zRemRangeByScore key'.set ((c.now - l.windowMillis : ℤ) : ℚ) = set) :
    l.call key c =
      if c.count ≤ c.limit ∧ c.count + zCard set ≤ c.limit then
        (true, { set := addRequests c.now 1 c.members set
                 expireAt := some (c.now + l.windowMillis) })
      else (false, { key' with set }) := by
  have hall : c.members.take c.count.toNat = c.members := by
    unfold RateCall.members members
    rw [List.take_of_length_le]
    rw [List.length_map, List.length_range]
  unfold Limiter.call Limiter.allowN slidingWindowScript
  rw [if_neg (by omega), if_neg (by omega), if_neg (by omega), hdrop]
  simp only [hset]
  by_cases hfits : c.count ≤ c.limit
  · rw [if_neg (show ¬ (c.count < 1 ∨ c.limit < c.count) by omega)]
    by_cases hcard : c.count + zCard set ≤ c.limit
    · rw [if_neg (show ¬ c.limit < zCard set + c.count by omega), if_pos ⟨hfits, hcard⟩]
      simp only [decide_true]
      exact congrArg (fun ms => (true, RedisKey.mk (addRequests c.now 1 ms set) _)) hall
    · rw [if_pos (show c.limit < zCard set + c.count by omega), if_neg (fun h => hcard h.2)]
      rfl
  · rw [if_pos (show c.count < 1 ∨ c.limit < c.count by omega), if_neg (fun h => hfits h.1)]
    rfl

/-- One call decides by the charges of its window and keeps the invariant. -/
theorem Tracks.call (ht : Tracks l h key now) (hw : 0 < l.windowMillis) (hle : now ≤ c.now)
    (hcount : 1 ≤ c.count ∧ c.count < 1000000) (hlimit : 1 ≤ c.limit) (hnodup : c.members.Nodup)
    (hnew : ∀ r ∈ h, ∀ m ∈ c.members, m ∉ r.1.members) :
    l.Decides h c (l.call key c) := by
  have hdropped := (ht.wait hle).drop (b := c.dropped)
  generalize hdrop : key.drop c.now c.dropped = key' at hdropped
  have hevict := hdropped.evict
  generalize hset : zRemRangeByScore key'.set ((c.now - l.windowMillis : ℤ) : ℚ) = set at hevict
  -- After the eviction, the set has what was asked for since the window's start.
  have hcard : zCard set = charged h (c.now - l.windowMillis) c.now := by
    rw [← hset, zCard_zRemRangeByScore]
    exact hdropped.counts _ (le_refl _)
  have hnone : c.entries set = 0 := by
    unfold RateCall.entries
    rw [Nat.cast_eq_zero, List.countP_eq_zero]
    intro e he hin
    obtain ⟨r, hr, hmem⟩ := hevict.members e he
    exact hnew r hr e.1 (of_decide_eq_true hin) hmem
  have hcall := l.call_eq hw hcount.1 hlimit hdrop hset
  rw [hcard] at hcall
  -- The script compares the same two numbers as the specification.
  by_cases hadmit : c.count ≤ c.limit ∧
      c.count + charged h (c.now - l.windowMillis) c.now ≤ c.limit
  · rw [if_pos hadmit] at hcall
    rw [hcall]
    refine ⟨iff_of_true rfl hadmit, ?_, hevict.admit hcount hnodup hnew⟩
    have hfresh : ∀ m ∈ c.members, ∀ e ∈ set, e.1 ≠ m := by
      rintro m hm e he rfl
      obtain ⟨r, hr, hmem⟩ := hevict.members e he
      exact hnew r hr e.1 hm hmem
    rw [addRequests_eq hfresh hnodup, RateCall.entries_append, hnone, RateCall.entries_added,
      c.length_members (by omega)]
    exact zero_add _
  · rw [if_neg hadmit] at hcall
    rw [hcall]
    exact ⟨iff_of_false Bool.false_ne_true hadmit, hnone, hevict.deny⟩

end Steps

/-! ## All calls -/

section Runs

variable {l : Limiter} {pre : List RateCall} {c : RateCall}

/-- A further call behind the calls before it. -/
theorem Limiter.calls_append (l : Limiter) (pre : List RateCall) (c : RateCall) :
    l.calls (pre ++ [c]) =
      ((l.calls pre).1 ++ [(c, (l.call (l.calls pre).2 c).1)], (l.call (l.calls pre).2 c).2) := by
  unfold Limiter.calls
  rw [List.foldl_append]
  rfl

/-- The history has the calls in their order. -/
theorem Limiter.calls_map (l : Limiter) (pre : List RateCall) :
    (l.calls pre).1.map Prod.fst = pre := by
  induction pre using List.reverseRecOn with
  | nil => rfl
  | append_singleton pre c ih =>
    rw [l.calls_append, List.map_append, ih]
    rfl

/-- The calls before a call are a history themselves. -/
theorem Calls.init (h : Calls (pre ++ [c])) : Calls pre where
  times := (List.pairwise_append.mp h.times).1
  counts c' hc' := h.counts c' (by simp [hc'])
  limits c' hc' := h.limits c' (by simp [hc'])
  members := by
    have hnodup := h.members
    rw [List.flatMap_append] at hnodup
    exact hnodup.of_append_left

/-- The invariant holds after all calls, and a further call decides by it. -/
theorem Limiter.calls_decides (hw : 0 < l.windowMillis) (h : Calls (pre ++ [c])) :
    l.Decides (l.calls pre).1 c (l.call (l.calls pre).2 c) := by
  induction pre using List.reverseRecOn generalizing c with
  | nil =>
    have hc : c ∈ ([] : List RateCall) ++ [c] := by simp
    have hnodup : c.members.Nodup := by simpa using h.members
    exact tracks_absent.call hw (le_refl c.now) (h.counts c hc) (h.limits c hc) hnodup
      fun r hr => absurd hr List.not_mem_nil
  | append_singleton pre c' ih =>
    have hbefore := (ih h.init).tracks
    have hle : c'.now ≤ c.now := by
      have htimes := (List.pairwise_append.mp h.times).2.2
      exact htimes c' (by simp) c (by simp)
    have hnodup := h.members
    rw [List.flatMap_append, List.nodup_append] at hnodup
    have hown : c.members.Nodup := by simpa using hnodup.2.1
    have hc : c ∈ pre ++ [c'] ++ [c] := by simp
    have hnew : ∀ r ∈ (l.calls (pre ++ [c'])).1, ∀ m ∈ c.members, m ∉ r.1.members := by
      intro r hr m hm hm'
      have hr' : r.1 ∈ pre ++ [c'] := by
        rw [← l.calls_map (pre ++ [c'])]
        exact List.mem_map_of_mem hr
      exact hnodup.2.2 m (List.mem_flatMap.mpr ⟨r.1, hr', hm'⟩) m (by simpa using hm) rfl
    rw [l.calls_append] at hnew ⊢
    exact hbefore.call hw hle (h.counts c hc) (h.limits c hc) hown hnew

/-- The limiter is safe and exact. After any calls, with the window at the time of a further one: if
it is admitted, the counts admitted in the window, without its first millisecond, are at most its
limit; it is admitted if its count, within its limit, fits next to the counts admitted in the
window; and it is charged for all of its count or for nothing. -/
theorem window_exact (hw : 0 < l.windowMillis) (h : Calls (pre ++ [c])) :
    let before := l.calls pre
    let after := l.call before.2 c
    (after.1 = true →
      charged (before.1 ++ [(c, true)]) (c.now - l.windowMillis + 1) c.now ≤ c.limit) ∧
    (c.count ≤ c.limit → c.count + charged before.1 (c.now - l.windowMillis) c.now ≤ c.limit →
      after.1 = true) ∧
    c.entries after.2.set = if after.1 then c.count else 0 := by
  intro before after
  have hdecides : l.Decides before.1 c after := l.calls_decides hw h
  refine ⟨fun hadmit => ?_, fun hfits hroom => hdecides.admitted.mpr ⟨hfits, hroom⟩,
    hdecides.entries⟩
  have hroom := (hdecides.admitted.mp hadmit).2
  have hcounts : ∀ r ∈ before.1, 1 ≤ r.1.count := by
    intro r hr
    have hr' : r.1 ∈ pre := by
      rw [← l.calls_map pre]
      exact List.mem_map_of_mem hr
    exact (h.counts r.1 (by simp [hr'])).1
  have hshorter : charged before.1 (c.now - l.windowMillis + 1) c.now ≤
      charged before.1 (c.now - l.windowMillis) c.now := charged_le hcounts (by omega)
  rw [charged_append, if_pos ⟨rfl, by omega, le_refl c.now⟩]
  omega

/-- Two requests at the times 0 and 10 fill a window of 10 milliseconds for a third one, which is
denied. -/
theorem window_exact_denied :
    let l : Limiter := { windowMillis := 10, maxReqs := 3 }
    let texts (i : ℕ) : String := if i = 0 then "a" else "b"
    let pre : List RateCall := [⟨0, 2, 3, texts, false⟩]
    let c : RateCall := ⟨10, 2, 3, texts, true⟩
    let before := l.calls pre
    let after := l.call before.2 c
    after.1 = false ∧
    (after.1 = true →
      charged (before.1 ++ [(c, true)]) (c.now - l.windowMillis + 1) c.now ≤ c.limit) ∧
    (c.count ≤ c.limit → c.count + charged before.1 (c.now - l.windowMillis) c.now ≤ c.limit →
      after.1 = true) ∧
    c.entries after.2.set = if after.1 then c.count else 0 := by
  intro l texts pre c before after
  have hcalls : Calls (pre ++ [c]) := by
    refine ⟨by decide, by decide, by decide, by decide +kernel⟩
  exact ⟨by decide +kernel, window_exact (l := l) (by decide) hcalls⟩

end Runs

end CdkSystem
