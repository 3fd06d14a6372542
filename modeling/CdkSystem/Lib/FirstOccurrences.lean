import Mathlib.Tactic

/-!
# First occurrences

`FirstOccurrences` says that a list has the elements of another one, each once, in the order in
which they occur there for the first time; `List.eraseDups` computes this list.
-/

namespace Occurrences

variable {α : Type*} [BEq α]

/-- The elements of a list, each once, in the order of their first occurrences. -/
structure FirstOccurrences (all firsts : List α) : Prop where
  nodup : firsts.Nodup
  mem_iff : ∀ a, a ∈ firsts ↔ a ∈ all
  ordered : firsts.Pairwise fun a b => all.idxOf a < all.idxOf b

variable [LawfulBEq α]

/-- The order of first occurrences among the elements that satisfy `p` is that among all. -/
theorem idxOf_lt_of_filter {p : α → Bool} {as : List α} {a b : α} (ha : p a = true)
    (hb : p b = true) (h : (as.filter p).idxOf a < (as.filter p).idxOf b) :
    as.idxOf a < as.idxOf b := by
  induction as with
  | nil => exact absurd h (lt_irrefl _)
  | cons c as ih =>
    by_cases hc : p c = true
    · rw [List.filter_cons_of_pos hc] at h
      by_cases hac : c = a
      · by_cases hbc : c = b
        · rw [← hac, ← hbc] at h
          exact absurd h (lt_irrefl _)
        · rw [hac, List.idxOf_cons_self, List.idxOf_cons_ne as (hac ▸ hbc)]
          exact Nat.succ_pos _
      · by_cases hbc : c = b
        · rw [← hbc, List.idxOf_cons_self] at h
          exact absurd h (Nat.not_lt_zero _)
        · rw [List.idxOf_cons_ne _ hac, List.idxOf_cons_ne _ hbc] at h ⊢
          exact Nat.succ_lt_succ (ih (Nat.lt_of_succ_lt_succ h))
    · have hac : c ≠ a := fun hac => hc (hac ▸ ha)
      have hbc : c ≠ b := fun hbc => hc (hbc ▸ hb)
      rw [List.filter_cons_of_neg hc] at h
      rw [List.idxOf_cons_ne _ hac, List.idxOf_cons_ne _ hbc]
      exact Nat.succ_lt_succ (ih h)

/-- `List.eraseDups` keeps the first occurrence of each element, in the order of the list. -/
theorem firstOccurrences_eraseDups (as : List α) : FirstOccurrences as as.eraseDups := by
  -- By induction on the length: behind the first element, its other occurrences are removed.
  induction hn : as.length using Nat.strong_induction_on generalizing as with
  | _ n ih =>
    cases as with
    | nil => exact ⟨List.nodup_nil, fun a => Iff.rfl, List.Pairwise.nil⟩
    | cons c as =>
      have hlt : (as.filter fun b => !b == c).length < n := by
        have hle := List.length_filter_le (fun b => !b == c) as
        rw [← hn, List.length_cons]
        omega
      have hrest := ih _ hlt _ rfl
      have hne : ∀ b, b ∈ (as.filter fun b => !b == c).eraseDups → (!b == c) = true := fun b hb =>
        (List.mem_filter.mp ((hrest.mem_iff b).mp hb)).2
      have hc : ∀ b, b ∈ (as.filter fun b => !b == c).eraseDups → c ≠ b := by
        intro b hb heq
        have hb' := hne b hb
        rw [heq, beq_self_eq_true] at hb'
        exact absurd hb' (by simp)
      rw [List.eraseDups_cons]
      refine ⟨List.nodup_cons.mpr ⟨fun hmem => hc c hmem rfl, hrest.nodup⟩, fun a => ?_, ?_⟩
      · rw [← List.eraseDups_cons]
        exact List.mem_eraseDups
      · refine List.pairwise_cons.mpr ⟨fun b hb => ?_, ?_⟩
        · rw [List.idxOf_cons_self, List.idxOf_cons_ne as (hc b hb)]
          exact Nat.succ_pos _
        · refine hrest.ordered.imp_of_mem fun {a b} ha hb hab => ?_
          rw [List.idxOf_cons_ne as (hc a ha), List.idxOf_cons_ne as (hc b hb)]
          exact Nat.succ_lt_succ (idxOf_lt_of_filter (hne a ha) (hne b hb) hab)

/-- A list without repetitions is left as it is. -/
theorem eraseDups_of_nodup {as : List α} (h : as.Nodup) : as.eraseDups = as := by
  induction as with
  | nil => rfl
  | cons a as ih =>
    obtain ⟨hmem, hnodup⟩ := List.nodup_cons.mp h
    have hfilter : (as.filter fun b => !b == a) = as := by
      refine List.filter_eq_self.mpr fun b hb => ?_
      have hba : b ≠ a := fun heq => hmem (heq ▸ hb)
      simp [hba]
    rw [List.eraseDups_cons, hfilter, ih hnodup]

end Occurrences
