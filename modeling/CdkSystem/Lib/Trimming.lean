import Mathlib.Data.List.DropRight
import Mathlib.Tactic

/-!
# Trimming

A list without the items at both ends that satisfy a predicate. What is trimmed can be put back at
either end (`trim_append_left`, `trim_append_right`), and a list that neither starts nor ends with
such an item stays as it is (`trim_eq_self`).
-/

namespace Trimming

variable {α : Type} (p : α → Bool)

/-- The list without the items at both ends that satisfy `p`. -/
def trim (s : List α) : List α := (s.dropWhile p).rdropWhile p

variable {p}

/-- Dropping at the end of a list with an item in front. -/
theorem rdropWhile_cons (c : α) (s : List α) :
    (c :: s).rdropWhile p =
      if s.rdropWhile p = [] then (if p c then [] else [c]) else c :: s.rdropWhile p := by
  have happend : (c :: s).rdropWhile p = ((s.reverse ++ [c]).dropWhile p).reverse := by
    rw [List.rdropWhile, List.reverse_cons]
  rw [happend, List.dropWhile_append]
  unfold List.rdropWhile
  by_cases hs : s.reverse.dropWhile p = []
  · by_cases hc : p c <;> simp [hs, hc]
  · simp [hs]

/-- The two ends are independent of each other. -/
theorem trim_eq (s : List α) : trim p s = (s.rdropWhile p).dropWhile p := by
  unfold trim
  induction s with
  | nil => rfl
  | cons c s ih =>
    by_cases hc : p c = true
    · rw [List.dropWhile_cons_of_pos hc, ih, rdropWhile_cons]
      split_ifs with hs
      · simp [hs]
      · rw [List.dropWhile_cons_of_pos hc]
    · rw [List.dropWhile_cons_of_neg hc, rdropWhile_cons]
      split_ifs <;> simp [hc]

/-- Lists that agree but for what is dropped at the end are trimmed to the same list. -/
theorem trim_congr {s t : List α} (h : s.rdropWhile p = t.rdropWhile p) : trim p s = trim p t := by
  rw [trim_eq, trim_eq, h]

/-- Lists that agree but for what is dropped at the end still do so with an item in front. -/
theorem rdropWhile_cons_congr {s t : List α} (c : α) (h : s.rdropWhile p = t.rdropWhile p) :
    (c :: s).rdropWhile p = (c :: t).rdropWhile p := by
  rw [rdropWhile_cons, rdropWhile_cons, h]

/-- What is dropped at the end can be put back. -/
theorem rdropWhile_append {s back : List α} (h : ∀ c ∈ back, p c = true) :
    (s ++ back).rdropWhile p = s.rdropWhile p := by
  unfold List.rdropWhile
  rw [List.reverse_append, List.dropWhile_append_of_pos]
  simpa using h

/-- What is trimmed at the front can be put back. -/
theorem trim_append_left {front : List α} (s : List α) (h : ∀ c ∈ front, p c = true) :
    trim p (front ++ s) = trim p s := by
  unfold trim
  rw [List.dropWhile_append_of_pos h]

/-- What is trimmed at the end can be put back. -/
theorem trim_append_right (s : List α) {back : List α} (h : ∀ c ∈ back, p c = true) :
    trim p (s ++ back) = trim p s := trim_congr (rdropWhile_append h)

/-- A list that starts with an item that is not trimmed is only trimmed at the end. -/
theorem trim_cons {c : α} (s : List α) (h : p c = false) :
    trim p (c :: s) = c :: s.rdropWhile p := by
  unfold trim
  rw [List.dropWhile_cons_of_neg (by simp [h]), rdropWhile_cons, h]
  by_cases hs : s.rdropWhile p = [] <;> simp [hs]

/-- A list that starts and ends with items that are not trimmed stays as it is. -/
theorem trim_eq_self {a b : α} (s : List α) (ha : p a = false) (hb : p b = false) :
    trim p (a :: (s ++ [b])) = a :: (s ++ [b]) := by
  rw [trim_cons _ ha, List.rdropWhile_concat_neg _ _ _ (by simp [hb])]

/-- A list is what is left of it with the trimmed items at both ends. -/
theorem exists_trim_eq (p : α → Bool) (s : List α) : ∃ front back, s = front ++ (trim p s ++ back) ∧
    (∀ c ∈ front, p c = true) ∧ ∀ c ∈ back, p c = true := by
  have hback : (s.dropWhile p).rdropWhile p ++ (s.dropWhile p).rtakeWhile p = s.dropWhile p := by
    rw [List.rdropWhile, List.rtakeWhile, ← List.reverse_append, List.takeWhile_append_dropWhile,
      List.reverse_reverse]
  refine ⟨s.takeWhile p, (s.dropWhile p).rtakeWhile p, ?_, fun c => List.mem_takeWhile_imp,
    fun c => List.mem_rtakeWhile_imp⟩
  rw [trim, hback, List.takeWhile_append_dropWhile]

/-- A list with an item that is not trimmed has a last one. -/
theorem exists_last {s : List α} (h : ∃ c ∈ s, p c = false) :
    ∃ t c back, s = t ++ [c] ++ back ∧ p c = false ∧ ∀ b ∈ back, p b = true := by
  have hne : s.rdropWhile p ≠ [] := by
    intro he
    obtain ⟨c, hc, hpc⟩ := h
    have hall := List.rdropWhile_eq_nil_iff.mp he c hc
    exact absurd (hall.symm.trans hpc) (by decide)
  have hs : s.rdropWhile p ++ s.rtakeWhile p = s := by
    rw [List.rdropWhile, List.rtakeWhile, ← List.reverse_append, List.takeWhile_append_dropWhile,
      List.reverse_reverse]
  refine ⟨(s.rdropWhile p).dropLast, (s.rdropWhile p).getLast hne, s.rtakeWhile p, ?_, ?_,
    fun c => List.mem_rtakeWhile_imp⟩
  · rw [List.dropLast_append_getLast hne, hs]
  · simpa using List.rdropWhile_last_not p s hne

end Trimming
