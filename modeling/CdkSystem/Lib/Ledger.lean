import Mathlib.Algebra.BigOperators.Group.Finset.Piecewise
import Mathlib.Algebra.BigOperators.Group.List.Basic
import Mathlib.Tactic.Linarith

/-!
# Ledgers

A ledger is a list of entries, each of which takes a state to the next one (`Ledger`). A quantity of
the states changes from the first state to the last one by the sum of its changes
(`Ledger.sum_change`), and that sum is one over the owners of the entries (`sum_owners`).
-/

namespace RowLock

variable {E S ι : Type} {first last : E → S} {s s' : S} {log : List E}

/-- Entries that lead from a state to another one, where each goes on from the state that the one
before it leaves. -/
inductive Ledger (first last : E → S) (s : S) : List E → S → Prop
  /-- Without entries the state stays. -/
  | nil : Ledger first last s [] s
  /-- A further entry. -/
  | snoc {log : List E} {e : E} (h : Ledger first last s log (first e)) :
      Ledger first last s (log ++ [e]) (last e)

/-- What holds in the first state and is kept by all entries holds in the last state. -/
theorem Ledger.invariant (h : Ledger first last s log s') {P : S → Prop} (h0 : P s)
    (hstep : ∀ e ∈ log, P (first e) → P (last e)) : P s' := by
  induction h with
  | nil => exact h0
  | @snoc log e h ih =>
    have hbefore : P (first e) := ih fun e' he' => hstep e' (by simp [he'])
    exact hstep e (by simp) hbefore

/-- What holds in the first state and is kept by all entries holds before each entry. -/
theorem Ledger.invariant_first (h : Ledger first last s log s') {P : S → Prop} (h0 : P s)
    (hstep : ∀ e ∈ log, P (first e) → P (last e)) : ∀ e ∈ log, P (first e) := by
  induction h with
  | nil =>
    intro e he
    cases he
  | @snoc log e h ih =>
    have hstep' : ∀ e' ∈ log, P (first e') → P (last e') := fun e' he' => hstep e' (by simp [he'])
    intro e' he'
    rcases List.mem_append.mp he' with he' | he'
    · exact ih hstep' e' he'
    · rw [List.mem_singleton.mp he']
      exact h.invariant h0 hstep'

/-- A quantity changes by the sum of its changes. -/
theorem Ledger.sum_change (h : Ledger first last s log s') (f : S → ℤ) :
    (log.map fun e => f (last e) - f (first e)).sum = f s' - f s := by
  induction h with
  | nil => simp
  | snoc h ih =>
    rw [List.map_append, List.sum_append, ih]
    simp

/-- A quantity that no entry takes above a bound only exceeds it if it did so from the start. -/
theorem Ledger.le_max (h : Ledger first last s log s') (f : S → ℤ) {bound : ℤ}
    (hstep : ∀ e ∈ log, f (last e) ≤ max (f (first e)) bound) : f s' ≤ max (f s) bound := by
  refine h.invariant (P := fun t => f t ≤ max (f s) bound) (le_max_left _ _) fun e he hle => ?_
  exact (hstep e he).trans (max_le hle (le_max_right _ _))

variable [Fintype ι] [DecidableEq ι]

/-- A sum over the entries is one over their owners. -/
theorem sum_owners (owner : E → ι) (f : E → ℤ) (log : List E) :
    (log.map f).sum = ∑ i, ((log.filter fun e => owner e = i).map f).sum := by
  induction log with
  | nil => simp
  | cons e log ih =>
    have hcons : ∀ i, (((e :: log).filter fun e => owner e = i).map f).sum =
        (if owner e = i then f e else 0) + ((log.filter fun e => owner e = i).map f).sum := by
      intro i
      by_cases hi : owner e = i <;> simp [hi]
    rw [List.map_cons, List.sum_cons, ih, Finset.sum_congr rfl fun i _ => hcons i,
      Finset.sum_add_distrib, Finset.sum_ite_eq Finset.univ (owner e) fun _ => f e,
      if_pos (Finset.mem_univ _)]

end RowLock
