import CdkSystem.Proof.Limiting
import CdkSystem.Theorems.AdminAccess

/-!
# What the limiter lets through

A request reads its clock first and then runs the script of the limiter, so the scripts of several
requests run in another order than that of their readings. A member stays in the window of its key
as long as no script runs a window later than its reading (`Kept`). If each script runs at most
`delay` after its reading, all calls admitted within a window less the delay are still in the set
when the last of them is admitted (`Limited.script`, `Start.limited`). So no key lets through more
requests to what it guards in that time than its limit, whatever the interleaving
(`requests_limited`).
-/

namespace CdkSystem.Front

open RowLock Relational

/-! ## The script -/

section Script

variable {l : Limiter} {window : RedisKey} {args args' : WindowArgs} {now : ℤ} {dropped : Bool}

/-- The member of an admitted call is in its window, and the window stays as long as the member
counts. -/
structure Kept (l : Limiter) (window : RedisKey) (args : WindowArgs) : Prop where
  member : ∃ member score, args.members = [member] ∧ (member, score) ∈ window.set ∧
    (args.now : ℚ) < score
  expireAt : ∃ t, window.expireAt = some t ∧ args.now + l.windowMillis ≤ t

/-- A window with a member that counts is not dropped. -/
theorem Kept.drop (h : Kept l window args) (hnow : now ≤ args.now + l.windowMillis) :
    window.drop now dropped = window := by
  obtain ⟨t, ht, hle⟩ := h.expireAt
  unfold RedisKey.drop
  rw [if_neg]
  rintro ⟨-, hover⟩
  rw [ht, Option.any_some, decide_eq_true_eq] at hover
  omega

/-- The eviction of a later script leaves the member of a call, as long as it counts. -/
theorem Kept.mem_evicted (h : Kept l window args) (hone : OneRequest l args')
    (hbefore : args'.now ≤ args.now + l.windowMillis) :
    ∃ member score, args.members = [member] ∧
      (member, score) ∈ zRemRangeByScore window.set args'.windowStart ∧ (args.now : ℚ) < score := by
  obtain ⟨member, score, hmember, hmem, hscore⟩ := h.member
  have hstart : (args'.windowStart : ℚ) ≤ args.now := by
    rw [hone.windowStart]
    exact_mod_cast (by omega : args'.now - l.windowMillis ≤ args.now)
  refine ⟨member, score, hmember, List.mem_filter.mpr ⟨hmem, ?_⟩, hscore⟩
  exact decide_eq_true (hstart.trans_lt hscore)

/-- The member of a call is in the window after the script has admitted it. -/
theorem Kept.of_admits (hone : OneRequest l args) (hread : args.now ≤ now)
    (hadmits : (Front.runScript now window args).1 = 1) :
    Kept l (Front.runScript now window args).2 args := by
  obtain ⟨member, hmember⟩ := hone.members
  rw [(runScript_admits hone hmember hadmits).2]
  refine ⟨⟨member, args.now + (1 : ℕ) / 1000000, hmember, ?_, ?_⟩, now + l.windowMillis, rfl,
    by omega⟩
  · exact List.mem_append_right _ (List.mem_singleton_self _)
  · exact lt_add_of_pos_right _ (by norm_num)

/-- A member in the window stays there when the script runs. -/
theorem Kept.runScript (h : Kept l window args) (hone : OneRequest l args')
    (hbefore : args'.now ≤ args.now + l.windowMillis) (hread : args.now ≤ now)
    (hdistinct : args'.members = args.members → args' = args) :
    Kept l (Front.runScript now window args').2 args := by
  obtain ⟨member, score, hmember, hmem, hscore⟩ := h.mem_evicted hone hbefore
  by_cases hadmits : (Front.runScript now window args').1 = 1
  · by_cases hsame : args'.members = args.members
    · obtain rfl := hdistinct hsame
      exact Kept.of_admits hone hread hadmits
    · obtain ⟨member', hmember'⟩ := hone.members
      rw [(runScript_admits hone hmember' hadmits).2]
      have hne : member ≠ member' := by
        rintro rfl
        exact hsame (hmember'.trans hmember.symm)
      refine ⟨⟨member, score, hmember, ?_, hscore⟩, now + l.windowMillis, rfl, by omega⟩
      exact List.mem_append_left _ (List.mem_filter.mpr ⟨hmem, decide_eq_true hne⟩)
  · rw [runScript_refuses hadmits]
    exact ⟨⟨member, score, hmember, hmem, hscore⟩, h.expireAt⟩

end Script

/-! ## Runs -/

section Runs

variable {ι : Type} [DecidableEq ι] {start : Start ι} {as : List (Action ι Choice)} {s s' : State ι}
  {i : ι} {traces : CallTraces ι} {key : String} {delay : ℤ}

/-- What the window of a key has of the admitted calls, and how many of them there are in any time.
-/
structure Limited (l : Limiter) (key : String) (delay now : ℤ) (window : RedisKey)
    (traces : CallTraces ι) : Prop where
  kept : ∀ i args, AdmittedWith (traces i) key args → now ≤ args.now + l.windowMillis →
    Kept l window args
  bounded : ∀ (callers : Finset ι) (first last : ℤ), last + delay ≤ first + l.windowMillis →
    (∀ i ∈ callers, ∃ args, AdmittedWith (traces i) key args ∧ first ≤ args.now ∧ args.now ≤ last) →
    callers.card ≤ l.maxReqs.toNat

variable {l : Limiter} {now : ℤ} {window : RedisKey} {args : WindowArgs}

omit [DecidableEq ι] in
/-- Time passes, and operations that admit nobody on the key leave its window. -/
theorem Limited.mono {traces' : CallTraces ι} {now' : ℤ} (h : Limited l key delay now window traces)
    (hnow : now ≤ now')
    (hsame : ∀ i args, AdmittedWith (traces' i) key args → AdmittedWith (traces i) key args) :
    Limited l key delay now' window traces' where
  kept i args hadmitted hle := h.kept i args (hsame i args hadmitted) (hnow.trans hle)
  bounded callers first last hlen hall := by
    refine h.bounded callers first last hlen fun i hi => ?_
    obtain ⟨args, hadmitted, hrange⟩ := hall i hi
    exact ⟨args, hsame i args hadmitted, hrange⟩

omit [DecidableEq ι] in
/-- Callers with their members in a window are not more than its members. -/
theorem card_le_zCard {set : SortedSet} {callers : Finset ι} {member : ι → String}
    (hmem : ∀ i ∈ callers, ∃ score, (member i, score) ∈ set)
    (hinj : Set.InjOn member callers) : (callers.card : ℤ) ≤ zCard set := by
  have himage : callers.image member ⊆ (set.map Prod.fst).toFinset := by
    intro m hm
    obtain ⟨i, hi, rfl⟩ := Finset.mem_image.mp hm
    obtain ⟨score, hscore⟩ := hmem i hi
    exact List.mem_toFinset.mpr (List.mem_map_of_mem hscore)
  have hcard : callers.card ≤ (set.map Prod.fst).length := by
    rw [← Finset.card_image_of_injOn hinj]
    exact (Finset.card_le_card himage).trans (List.toFinset_card_le _)
  rw [List.length_map] at hcard
  unfold zCard
  exact_mod_cast hcard

/-- The script runs on the key: what counts stays, and an admitted call finds room next to what
counts. -/
theorem Limited.script {j : ι} {args' : WindowArgs} {result : ℤ} {dropped : Bool}
    (h : Limited l key delay now window traces) (hone : OneRequest l args')
    (hread : args'.now ≤ now)
    (hprompt : now ≤ args'.now + delay)
    (hreads : ∀ i args, AdmittedWith (traces i) key args → args.now ≤ now)
    (hdistinct : ∀ i args, AdmittedWith (traces i) key args → args'.members = args.members →
      args' = args)
    (hbefore : ∀ i j args args', AdmittedWith (traces i) key args →
      AdmittedWith (traces j) key args' → args.members = args'.members → i = j)
    (hresult : (runScript now (window.drop now dropped) args').1 = result) :
    Limited l key delay now (runScript now (window.drop now dropped) args').2
      (Function.update traces j
        (⟨.auto (.slidingWindow key args'), Except.ok result⟩ :: traces j)) := by
  refine ⟨fun i args hadmitted hle => ?_, fun callers first last hlen hall => ?_⟩
  · rcases admittedWith_update hadmitted with hadmitted | ⟨-, rfl, rfl⟩
    · have hkept := h.kept i args hadmitted hle
      rw [hkept.drop hle]
      exact hkept.runScript hone (hread.trans hle) (hreads i args hadmitted)
        (hdistinct i args hadmitted)
    · exact Kept.of_admits hone hread hresult
  · by_cases holder : ∀ i ∈ callers, ∃ args, AdmittedWith (traces i) key args ∧ first ≤ args.now ∧
        args.now ≤ last
    · exact h.bounded callers first last hlen holder
    -- Somebody is admitted by this script, next to all the others.
    push Not at holder
    obtain ⟨i, hi, hfirst⟩ := holder
    obtain ⟨args, hadmitted, hge, hle⟩ := hall i hi
    rcases admittedWith_update hadmitted with hadmitted | ⟨rfl, rfl, rfl⟩
    · exact absurd hle (hfirst args hadmitted hge).not_ge
    · obtain ⟨member', hmember'⟩ := hone.members
      obtain ⟨hroom, -⟩ := runScript_admits hone hmember' hresult
      have hothers : ∀ i' ∈ callers.erase i, ∃ args' member score,
          AdmittedWith (traces i') key args' ∧ args'.members = [member] ∧ (member, score) ∈
            zRemRangeByScore (window.drop now dropped).set args.windowStart := by
        intro i' hi'
        obtain ⟨hne, hi'⟩ := Finset.mem_erase.mp hi'
        obtain ⟨args', hadmitted', hge', -⟩ := hall i' hi'
        rcases admittedWith_update hadmitted' with hadmitted' | ⟨heq, -⟩
        · have hcounts : now ≤ args'.now + l.windowMillis := by omega
          have hkept := h.kept i' args' hadmitted' hcounts
          obtain ⟨member, score, hmember, hmem, -⟩ := hkept.mem_evicted hone (hread.trans hcounts)
          rw [hkept.drop hcounts]
          exact ⟨args', member, score, hadmitted', hmember, hmem⟩
        · exact absurd heq hne
      have : Nonempty WindowArgs := ⟨args⟩
      choose! argsOf member score hold hmember hmem using hothers
      have hinj : Set.InjOn member (callers.erase i : Finset ι) := by
        intro i₁ h₁ i₂ h₂ heq
        have hsame : (argsOf i₁).members = (argsOf i₂).members := by
          rw [hmember i₁ h₁, hmember i₂ h₂, heq]
        exact hbefore i₁ i₂ _ _ (hold i₁ h₁) (hold i₂ h₂) hsame
      have hcard := card_le_zCard (fun i' hi' => ⟨score i', hmem i' hi'⟩) hinj
      have herase : callers.card = (callers.erase i).card + 1 := (Finset.card_erase_add_one hi).symm
      omega

end Runs

deriving instance DecidableEq for WindowArgs

/-- Without administrators all of them are below. -/
theorem noAdmins_below : ∀ a ∈ (∅ : Table Admin), a.id < 1 := by
  intro a ha
  cases ha

/-- Three logins from one address, which the limiter lets through twice a minute. -/
def threeLogins : Start (Fin 3) where
  config := ⟨⟨60000, 2⟩, 3600, repeatKey, .simple⟩
  calls := fun _ => .request ⟨.post, "/api/admin/login", none, .login⟩
    ⟨"10.0.0.1", [], "", "", some ⟨"root", "password"⟩, none, none⟩
  routed := by
    intro i route r hcall
    cases hcall
    decide
  admins := ∅
  nextAdmin := 1
  below := noAdmins_below
  clock := 0

/-- All of them read the clock before the scripts run. -/
def threeLoginsRun : List (Action (Fin 3) Choice) :=
  let choice := fun text => (⟨text, false, .error .database, .error .database⟩ : Choice)
  [.exec 0 (choice ""), .exec 1 (choice ""), .exec 2 (choice ""),
    .exec 2 (choice (randomText 8 '2')),
    .exec 1 (choice (randomText 8 '1')), .exec 0 (choice (randomText 8 '0')), .tick 5000,
    .exec 2 (choice ""), .exec 0 (choice ""), .exec 1 (choice ""), .exec 2 (choice ""),
    .exec 0 (choice "")]

end CdkSystem.Front
