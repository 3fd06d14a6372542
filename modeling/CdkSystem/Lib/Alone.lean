import CdkSystem.Lib.Frame

/-!
# Programs that run alone

`RunsAlone D p d a d'` says that the program `p`, when nothing else uses the database, can run from
the state `d`, return `a` and leave the state `d'`. It does so in the runs of the system that has no
other program (`runsAlone_iff_run`), and a program made of two parts runs alone as its parts do one
after the other (`runsAlone_bind`).
-/

namespace RowLock

variable {Slot T S W L Q E C R α β : Type} {QA : Q → Type} {EA : E → Type}
variable [DecidableEq Slot] [DecidableEq L] {D : Dbms T S W L Q E C QA EA}

/-- A program runs alone from a state of the database, returns a result and leaves another state. -/
inductive RunsAlone (D : Dbms T S W L Q E C QA EA) :
    TxProg Slot Q E QA EA α → Db Unit Slot T S W L → α → Db Unit Slot T S W L → Prop
  /-- It has returned. -/
  | ret {a d} : RunsAlone D (.ret a) d a d
  /-- Its first operation is performed or fails, and it goes on with the answer. -/
  | op {o k d x d₁ a d'} (hs : OpStep D () o d x d₁) (h : RunsAlone D (k x) d₁ a d') :
      RunsAlone D (.op o k) d a d'
  /-- Time passes. -/
  | tick {p d a d'} (n : ℕ) (h : RunsAlone D p { d with clock := d.clock + n } a d') :
      RunsAlone D p d a d'

variable {p : TxProg Slot Q E QA EA α} {d d' : Db Unit Slot T S W L} {a : α}

/-- Two parts run one after the other. -/
theorem runsAlone_bind {f : α → TxProg Slot Q E QA EA β} {b : β} :
    RunsAlone D (p >>= f) d b d' ↔
      ∃ a d₁, RunsAlone D p d a d₁ ∧ RunsAlone D (f a) d₁ b d' := by
  constructor
  · intro h
    generalize hq : p >>= f = q at h
    -- The run of both parts is followed through the first part, and left where that returns.
    induction h generalizing p with
    | @ret b d =>
      cases p with
      | ret a =>
        have hf : f a = .ret b := hq
        exact ⟨a, d, .ret, hf ▸ .ret⟩
      | op o k => cases hq
    | @op o k d x d₁ b d' hs h ih =>
      cases p with
      | ret a =>
        have hf : f a = .op o k := hq
        exact ⟨a, d, .ret, hf ▸ .op hs h⟩
      | op o' k' =>
        obtain ⟨rfl, hk⟩ := Prog.op.inj hq
        obtain ⟨a, d₂, h₁, h₂⟩ := ih (congrFun (eq_of_heq hk) x)
        exact ⟨a, d₂, .op hs h₁, h₂⟩
    | tick n h ih =>
      obtain ⟨a, d₂, h₁, h₂⟩ := ih hq
      exact ⟨a, d₂, .tick n h₁, h₂⟩
  · rintro ⟨a, d₁, h₁, h₂⟩
    induction h₁ with
    | ret => exact h₂
    | op hs h ih => exact .op hs (ih h₂)
    | tick n h ih => exact .tick n (ih h₂)

/-- A program that has returned only lets time pass. -/
theorem runsAlone_ret {b : α} : RunsAlone D (.ret b : TxProg Slot Q E QA EA α) d a d' ↔
    a = b ∧ ∃ n : ℕ, d' = { d with clock := d.clock + n } := by
  constructor
  · intro h
    generalize hq : (.ret b : TxProg Slot Q E QA EA α) = q at h
    induction h with
    | ret =>
      cases hq
      exact ⟨rfl, 0, by simp⟩
    | op hs h ih => cases hq
    | @tick p d a d' n h ih =>
      obtain ⟨rfl, m, rfl⟩ := ih hq
      exact ⟨rfl, n + m, by simp [add_assoc]⟩
  · rintro ⟨rfl, n, rfl⟩
    exact .tick n .ret

/-- Time may pass at the end of a run alone, since only the clock changes. -/
theorem RunsAlone.later (h : RunsAlone D p d a d') (n : ℕ) :
    RunsAlone D p d a { d' with clock := d'.clock + n } := by
  induction h with
  | ret => exact .tick n .ret
  | op hs h ih => exact .op hs ih
  | tick m h ih => exact .tick m ih

/-- A program whose result is changed runs as the program does. -/
theorem runsAlone_map {f : α → β} {b : β} : RunsAlone D (p >>= fun a => .ret (f a)) d b d' ↔
    ∃ a, RunsAlone D p d a d' ∧ b = f a := by
  rw [runsAlone_bind]
  constructor
  · rintro ⟨a, d₁, h, hret⟩
    obtain ⟨rfl, n, rfl⟩ := runsAlone_ret.mp hret
    exact ⟨a, h.later n, rfl⟩
  · rintro ⟨a, h, rfl⟩
    exact ⟨a, d', h, .ret⟩

/-- The system with one program, which is the one that runs alone on the database. -/
def Sys.alone (p : TxProg Slot Q E QA EA R) (d : Db Unit Slot T S W L) :
    Sys Unit Slot T S W L Q E QA EA R := ⟨d, fun _ => some p⟩

section Runs

variable [Fintype Slot] {p : TxProg Slot Q E QA EA R} {a : R}

omit [DecidableEq Slot] [DecidableEq L] [Fintype Slot] in
/-- After an answer the program goes on in the system as it does alone. -/
theorem Sys.resume_alone (q : TxProg Slot Q E QA EA R) (d₁ : Db Unit Slot T S W L) :
    (Sys.alone p d).resume () d₁ (some q) = Sys.alone q d₁ := by
  have hprogs : Function.update (Sys.alone p d).progs () (some q) = (Sys.alone q d₁).progs := by
    funext u
    exact Function.update_self _ _ _
  rw [Sys.resume, hprogs]
  rfl

/-- A program that has died does not come back. -/
theorem Sys.died_stays {s s' : Sys Unit Slot T S W L Q E QA EA R} {as : List (Action Unit C)}
    (hp : s.progs () = none) (h : s.run D as = some s') : s'.progs () = none := by
  refine Sys.run_induction (P := fun s => s.progs () = none) D hp ?_ h
  intro s act s' hs hstep
  cases act with
  | exec i c | fail i | crash i => simp [Sys.step, hs] at hstep
  | tick n =>
    obtain rfl := Option.some.inj hstep
    exact hs

/-- A program runs alone as it does in the runs of the system that has no other program. -/
theorem runsAlone_iff_run : RunsAlone D p d a d' ↔
    ∃ as s, (Sys.alone p d).run D as = some s ∧ s.progs () = some (.ret a) ∧ s.db = d' := by
  constructor
  · -- A run alone is followed action by action; an operation that fails is an action too.
    intro h
    induction h with
    | @ret a d => exact ⟨[], _, rfl, rfl, rfl⟩
    | @op o k d x d₁ a d' hs h ih =>
      obtain ⟨as, s, hrun, hp, hd⟩ := ih
      have hresume := Sys.resume_alone (p := .op o k) (d := d) (k x) d₁
      rcases hs with ⟨c, hc⟩ | hf
      · refine ⟨.exec () c :: as, s, ?_, hp, hd⟩
        have hstep : (Sys.alone (.op o k) d).step D (.exec () c) = some (Sys.alone (k x) d₁) := by
          rw [← hresume]
          simp [Sys.step, Sys.alone, hc]
        rw [← List.singleton_append, Sys.run_append, Sys.run, List.foldlM_cons, hstep]
        exact hrun
      · refine ⟨.fail () :: as, s, ?_, hp, hd⟩
        have hstep : (Sys.alone (.op o k) d).step D (.fail () : Action Unit C) =
            some (Sys.alone (k x) d₁) := by
          rw [← hresume]
          simp [Sys.step, Sys.alone, hf]
        rw [← List.singleton_append, Sys.run_append, Sys.run, List.foldlM_cons, hstep]
        exact hrun
    | @tick p d a d' n h ih =>
      obtain ⟨as, s, hrun, hp, hd⟩ := ih
      exact ⟨.tick n :: as, s, hrun, hp, hd⟩
  · -- Conversely, the induction is on the actions, and a program that dies returns nothing.
    rintro ⟨as, s, hrun, hp, rfl⟩
    induction as generalizing p d with
    | nil =>
      obtain rfl := Option.some.inj hrun
      obtain rfl : p = .ret a := Option.some.inj hp
      exact .ret
    | cons act as ih =>
      obtain ⟨s₁, hstep, hrest⟩ := Option.bind_eq_some_iff.mp hrun
      cases act with
      | exec i c =>
        cases p with
        | ret b => cases hstep
        | op o k =>
          obtain ⟨⟨x, d₁⟩, hc, rfl⟩ := Option.map_eq_some_iff.mp hstep
          rw [Sys.resume_alone] at hrest
          exact .op (Or.inl ⟨c, hc⟩) (ih hrest)
      | fail i =>
        cases p with
        | ret b => cases hstep
        | op o k =>
          obtain ⟨⟨x, d₁⟩, hf, rfl⟩ := Option.map_eq_some_iff.mp hstep
          rw [Sys.resume_alone] at hrest
          exact .op (Or.inr hf) (ih hrest)
      | crash i =>
        obtain rfl := Option.some.inj hstep
        have hdied := Sys.died_stays (Function.update_self i none (Sys.alone p d).progs) hrest
        rw [hdied] at hp
        cases hp
      | tick n =>
        obtain rfl := Option.some.inj hstep
        exact .tick n (ih hrest)

end Runs

end RowLock
