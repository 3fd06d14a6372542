import CdkSystem.Lib.Frame
import CdkSystem.Lib.Trace

/-!
# Traces of the programs of a system

In a run, every program has a trace of the operations that it has asked for and the answers that it
has got (`Sys.Traced`). What a program follows from the beginning, it follows after its trace in
every state of a run (`Sys.Traced.follows`), and what is in a trace has happened at some step of the
run (`Sys.Traced.happened`).
-/

namespace RowLock

variable {ι Slot T S W L Q E C R : Type} {QA : Q → Type} {EA : E → Type}
variable [DecidableEq ι] [DecidableEq Slot] [Fintype Slot] [DecidableEq L]

/-- The trace of a program of a system. -/
abbrev OpTrace (Slot Q E : Type) (QA : Q → Type) (EA : E → Type) :=
  Prog.Trace (@TxOp.Ans Slot Q E QA EA)

/-- The traces of the programs of a system. -/
abbrev Traces (ι Slot Q E : Type) (QA : Q → Type) (EA : E → Type) := ι → OpTrace Slot Q E QA EA

namespace Sys

variable (D : Dbms T S W L Q E C QA EA)

/-- A run from a state, with the traces of the programs. -/
inductive Traced (s₀ : Sys ι Slot T S W L Q E QA EA R) :
    List (Action ι C) → Sys ι Slot T S W L Q E QA EA R → Traces ι Slot Q E QA EA → Prop
  | start : Traced s₀ [] s₀ fun _ => []
  | answer {as s traces act i o k a d} (h : Traced s₀ as s traces)
      (hp : s.progs i = some (.op o k)) (ha : s.Answers D i o a d act) :
      Traced s₀ (as ++ [act]) (s.resume i d (some (k a)))
        (Function.update traces i (⟨o, a⟩ :: traces i))
  | crash {as s traces i p} (h : Traced s₀ as s traces) (hp : s.progs i = some p) :
      Traced s₀ (as ++ [.crash i]) (s.resume i (s.db.closeAll i) none) traces
  | tick {as s traces} (n : ℕ) (h : Traced s₀ as s traces) :
      Traced s₀ (as ++ [.tick n]) { s with db := { s.db with clock := s.db.clock + n } } traces

variable {D} {s₀ s s' : Sys ι Slot T S W L Q E QA EA R} {as : List (Action ι C)}
  {traces : Traces ι Slot Q E QA EA} {i : ι}

/-- Every run has traces, one for each program, which record what it has asked and was answered. -/
theorem exists_traced (h : s₀.run D as = some s) : ∃ traces, Traced D s₀ as s traces := by
  induction as using List.reverseRecOn generalizing s with
  | nil =>
    rw [run_nil, Option.some.injEq] at h
    subst h
    exact ⟨_, .start⟩
  | append_singleton as act ih =>
    rw [run_snoc, Option.bind_eq_some_iff] at h
    obtain ⟨s₁, hs₁, hstep⟩ := h
    obtain ⟨traces, ht⟩ := ih hs₁
    rcases step_cases hstep with ⟨i, o, k, a, d, hp, ha, rfl⟩ | ⟨i, p, rfl, hp, rfl⟩ | ⟨n, rfl, rfl⟩
    · exact ⟨_, .answer ht hp ha⟩
    · exact ⟨_, .crash ht hp⟩
    · exact ⟨_, .tick n ht⟩

/-- A run with traces is a run. -/
theorem Traced.run_eq (h : Traced D s₀ as s traces) : s₀.run D as = some s := by
  induction h with
  | start => rfl
  | answer h hp ha ih =>
    rw [run_snoc, ih, Option.bind_some]
    cases ha with
    | exec h | fail h => simp only [step, hp, h, Option.map_some]
  | crash h hp ih =>
    rw [run_snoc, ih, Option.bind_some]
    simp only [step, hp]
  | tick n h ih =>
    rw [run_snoc, ih, Option.bind_some]
    rfl

/-- A program follows its rule after its trace, if it does from the beginning. -/
theorem Traced.follows
    {rule : OpTrace Slot Q E QA EA → TxOp Slot Q E → Prop}
    {post : OpTrace Slot Q E QA EA → R → Prop}
    (h : Traced D s₀ as s traces)
    (h0 : ∀ p, s₀.progs i = some p → Prog.Follows rule post [] p) :
    ∀ p, s.progs i = some p → Prog.Follows rule post (traces i) p := by
  induction h with
  | start => exact h0
  | @answer as s traces act j o k a d h hp ha ih =>
    intro p hp'
    by_cases hij : i = j
    · subst hij
      simp only [resume, Function.update_self, Option.some.injEq] at hp' ⊢
      exact hp' ▸ (ih _ hp).2 a
    · simp only [resume, Function.update_of_ne hij] at hp' ⊢
      exact ih p hp'
  | @crash as s traces j p' h hp ih =>
    intro p hp'
    by_cases hij : i = j
    · subst hij
      simp [resume] at hp'
    · simp only [resume, Function.update_of_ne hij] at hp'
      exact ih p hp'
  | tick n h ih => exact ih

/-- An element of a list with one more at its end is the last one or one of those before. -/
theorem snoc_eq_append_cons {α : Type} {xs as bs : List α} {x a : α}
    (h : xs ++ [x] = as ++ a :: bs) : (xs = as ∧ x = a) ∨ ∃ bs', xs = as ++ a :: bs' := by
  rcases List.eq_nil_or_concat bs with rfl | ⟨bs', b, rfl⟩
  · obtain ⟨hxs, hx⟩ := List.append_inj' h rfl
    exact Or.inl ⟨hxs, by simpa using hx⟩
  · rw [List.concat_eq_append, ← List.cons_append, ← List.append_assoc] at h
    obtain ⟨hxs, -⟩ := List.append_inj' h rfl
    exact Or.inr ⟨bs', hxs⟩

/-- What is in a trace was the answer at some step of the run. -/
theorem Traced.happened (h : Traced D s₀ as s traces) {o : TxOp Slot Q E} {a : o.Ans QA EA}
    (hm : ⟨o, a⟩ ∈ traces i) :
    ∃ as₁ act as₂ s₁ k d, as = as₁ ++ act :: as₂ ∧ s₀.run D as₁ = some s₁ ∧
      s₁.progs i = some (.op o k) ∧ s₁.Answers D i o a d act := by
  induction h with
  | start => cases hm
  | @answer as s traces act j o' k a' d h hp ha ih =>
    have hgrow : ⟨o, a⟩ ∈ traces i → ∃ as₁ act' as₂ s₁ k d, as ++ [act] = as₁ ++ act' :: as₂ ∧
        s₀.run D as₁ = some s₁ ∧ s₁.progs i = some (.op o k) ∧ s₁.Answers D i o a d act' := by
      intro hm
      obtain ⟨as₁, act', as₂, s₁, k, d, rfl, hrest⟩ := ih hm
      exact ⟨as₁, act', as₂ ++ [act], s₁, k, d, by simp, hrest⟩
    by_cases hij : i = j
    · subst hij
      rw [Function.update_self, List.mem_cons] at hm
      rcases hm with he | hm
      · cases he
        exact ⟨as, act, [], s, k, d, rfl, h.run_eq, hp, ha⟩
      · exact hgrow hm
    · rw [Function.update_of_ne hij] at hm
      exact hgrow hm
  | @crash as s traces j p h hp ih =>
    obtain ⟨as₁, act', as₂, s₁, k, d, rfl, hrest⟩ := ih hm
    exact ⟨as₁, act', as₂ ++ [.crash j], s₁, k, d, by simp, hrest⟩
  | tick n h ih =>
    obtain ⟨as₁, act', as₂, s₁, k, d, rfl, hrest⟩ := ih hm
    exact ⟨as₁, act', as₂ ++ [.tick n], s₁, k, d, by simp, hrest⟩

/-- The answer of an operation that was performed at some step of the run is in the trace. -/
theorem Traced.mem_of_exec (h : Traced D s₀ as s traces) {as₁ as₂ : List (Action ι C)} {c : C}
    {s₁ : Sys ι Slot T S W L Q E QA EA R} {o : TxOp Slot Q E}
    {k : o.Ans QA EA → TxProg Slot Q E QA EA R} {a : o.Ans QA EA} {d : Db ι Slot T S W L}
    (has : as = as₁ ++ .exec i c :: as₂) (hs₁ : s₀.run D as₁ = some s₁)
    (hp : s₁.progs i = some (.op o k)) (hperform : s₁.db.perform D i o c = some (a, d)) :
    ⟨o, a⟩ ∈ traces i := by
  induction h generalizing as₂ with
  | start =>
    have hlen := congrArg List.length has
    simp at hlen
  | @answer bs s traces act j o' k' a' d' h hp' ha ih =>
    -- The action is the last one of the run, or it is one of those before.
    rcases snoc_eq_append_cons has with ⟨rfl, rfl⟩ | ⟨as₂', hbs⟩
    · obtain rfl : s = s₁ := Option.some.inj (h.run_eq.symm.trans hs₁)
      cases ha with
      | exec hperform' =>
        rw [hp, Option.some.injEq, Prog.op.injEq] at hp'
        obtain ⟨rfl, -⟩ := hp'
        rw [hperform, Option.some.injEq, Prod.mk.injEq] at hperform'
        rw [Function.update_self, hperform'.1]
        exact List.mem_cons_self
    · have hmem := ih hbs
      by_cases hij : i = j
      · subst hij
        rw [Function.update_self]
        exact List.mem_cons_of_mem _ hmem
      · rwa [Function.update_of_ne hij]
  | crash h hp' ih =>
    rcases snoc_eq_append_cons has with ⟨-, hact⟩ | ⟨as₂', hbs⟩
    · cases hact
    · exact ih hbs
  | tick n h ih =>
    rcases snoc_eq_append_cons has with ⟨-, hact⟩ | ⟨as₂', hbs⟩
    · cases hact
    · exact ih hbs

end Sys

end RowLock
