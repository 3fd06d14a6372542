import Mathlib.Tactic

/-!
# Integers of a fixed width

Go's conversions to `int64` and `int32`, which keep the low bits, and `strconv.ParseInt` with base
10.

`ParseInt` reads a sign and digits and tells a syntax error from a number that is out of range;
`Atoi` is the same on a 64-bit platform. The conversions are stated as remainders, which is what the
proofs about offsets compute with.
-/

namespace CdkSystem

/-- The conversion to `int64`, and the result of an operation on `int64`. -/
def toInt64 (x : ℤ) : ℤ := x.bmod (2 ^ 64)

/-- The conversion to `int32`, which keeps the lowest bits and takes the highest of them as the
sign. -/
def toInt32 (x : ℤ) : ℤ := x.bmod (2 ^ 32)

/-- A value within the range is kept. -/
theorem toInt64_eq {x : ℤ} (h : -2 ^ 63 ≤ x) (h' : x < 2 ^ 63) : toInt64 x = x := by
  unfold toInt64
  exact Int.bmod_eq_of_le (by norm_num; omega) (by norm_num; omega)

/-- A value within the range is kept. -/
theorem toInt32_eq {x : ℤ} (h : -2 ^ 31 ≤ x) (h' : x < 2 ^ 31) : toInt32 x = x := by
  unfold toInt32
  exact Int.bmod_eq_of_le (by norm_num; omega) (by norm_num; omega)

/-! ## Parsing -/

/-- `ErrSyntax` and `ErrRange` of `strconv`, the two ways in which a number cannot be read. -/
inductive NumError where
  | errSyntax
  | errRange
  deriving DecidableEq, Repr

/-- The loop of `strconv.ParseUint` with base 10: the value so far is `n`. A value that is too large
ends it before the rest is looked at. -/
def parseUintFrom (maxVal : ℕ) (n : ℕ) : List Char → ℕ × Option NumError
  | [] => (n, none)
  | c :: cs =>
    if c.isDigit then
      let n' := n * 10 + (c.toNat - '0'.toNat)
      if maxVal < n' then (maxVal, some .errRange) else parseUintFrom maxVal n' cs
    else (0, some .errSyntax)

/-- `strconv.ParseUint` with base 10 and a number of bits. -/
def parseUint (s : List Char) (bits : ℕ) : ℕ × Option NumError :=
  if s = [] then (0, some .errSyntax) else parseUintFrom (2 ^ bits - 1) 0 s

/-- `strconv.ParseInt` with base 10 and a number of bits: the value and the error. -/
def parseInt (s : String) (bits : ℕ) : ℤ × Option NumError :=
  let cutoff : ℤ := 2 ^ (bits - 1)
  match s.toList with
  | [] => (0, some .errSyntax)
  | c :: cs =>
    let neg : Bool := c = '-'
    let un := parseUint (if c = '+' ∨ c = '-' then cs else c :: cs) bits
    if un.2 = some .errSyntax then (0, some .errSyntax)
    else if neg = false ∧ cutoff ≤ un.1 then (cutoff - 1, some .errRange)
    else if neg = true ∧ cutoff < un.1 then (-cutoff, some .errRange)
    else (if neg then -un.1 else un.1, none)

/-- The value that is parsed is within the range of its bits, whatever the error. -/
theorem parseInt_bounds (s : String) {bits : ℕ} :
    -(2 : ℤ) ^ (bits - 1) ≤ (parseInt s bits).1 ∧ (parseInt s bits).1 < 2 ^ (bits - 1) := by
  have hpos : (0 : ℤ) < 2 ^ (bits - 1) := by positivity
  unfold parseInt
  generalize (2 : ℤ) ^ (bits - 1) = cutoff at hpos ⊢
  split
  · constructor <;> simp only <;> omega
  · rename_i c cs _
    generalize parseUint (if c = '+' ∨ c = '-' then cs else c :: cs) bits = un
    by_cases hneg : c = '-'
    · simp only [hneg, decide_true]
      split_ifs <;> constructor <;> simp_all <;> omega
    · simp only [hneg, decide_false]
      split_ifs <;> constructor <;> simp_all <;> omega

/-- `strconv.Atoi` for `int` of 64 bits: a number that is out of range is cut to the nearest one. -/
def atoi (s : String) : ℤ × Option NumError := parseInt s 64

/-- Digits whose value is not too large are read. -/
theorem parseUintFrom_digits {maxVal n : ℕ} {cs : List Char} (hdigits : ∀ c ∈ cs, c.isDigit = true)
    (hle : Nat.ofDigitChars 10 cs n ≤ maxVal) :
    parseUintFrom maxVal n cs = (Nat.ofDigitChars 10 cs n, none) := by
  induction cs generalizing n with
  | nil => simp [parseUintFrom]
  | cons c cs ih =>
    have hcs : ∀ c ∈ cs, c.isDigit = true := fun c' hc' => hdigits c' (List.mem_cons_of_mem _ hc')
    rw [Nat.ofDigitChars_cons, Nat.mul_comm] at hle ⊢
    have hfirst : n * 10 + (c.toNat - '0'.toNat) ≤ maxVal := by
      rw [Nat.ofDigitChars_eq_ofDigitChars_zero] at hle
      have hpow : 1 ≤ 10 ^ cs.length := Nat.one_le_pow _ _ (by norm_num)
      nlinarith
    rw [parseUintFrom, if_pos (hdigits c List.mem_cons_self)]
    simp only
    rw [if_neg (not_lt.mpr hfirst)]
    exact ih hcs hle

/-- The decimal digits of a number are read back. -/
theorem atoi_toString {n : ℕ} (h : n < 2 ^ 63) : atoi (toString n) = ((n : ℤ), none) := by
  have hdigits : ∀ c ∈ Nat.toDigits 10 n, c.isDigit = true := fun c hc =>
    Nat.isDigit_of_mem_toDigits (by norm_num) (by norm_num) hc
  have hvalue : Nat.ofDigitChars 10 (Nat.toDigits 10 n) 0 = n := Nat.ofDigitChars_ten_toDigits
  have hread : parseUint (Nat.toDigits 10 n) 64 = (n, none) := by
    unfold parseUint
    rw [if_neg Nat.toDigits_ne_nil, parseUintFrom_digits hdigits (by rw [hvalue]; omega), hvalue]
  have htoList : (toString n).toList = Nat.toDigits 10 n := Nat.toList_repr
  unfold atoi parseInt
  rw [htoList]
  cases hl : Nat.toDigits 10 n with
  | nil => exact absurd hl Nat.toDigits_ne_nil
  | cons c cs =>
    rw [hl] at hdigits hread
    have hc := hdigits c List.mem_cons_self
    have hplus : c ≠ '+' := by
      rintro rfl
      exact absurd hc (by decide)
    have hminus : c ≠ '-' := by
      rintro rfl
      exact absurd hc (by decide)
    simp [hplus, hminus, hread]
    omega

end CdkSystem
