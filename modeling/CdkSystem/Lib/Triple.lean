import CdkSystem.Lib.Outline

/-!
# Reasoning about parts of programs

`Outline.Safe` is about whole programs. `Outline.Wp` is about a part of one: the part can be run
from a state, and whatever follows it is safe if it is safe wherever the postcondition holds. A
function's specification is a theorem with conclusion `Wp`, and its callers use that theorem through
`Wp.bind` without looking into the function.

Inside a transaction the state is described by `Held`: the writes and the locks of the transaction,
and facts that nobody else can invalidate (`Steady`), because they are about rows under these locks
or only become truer as the database moves on. `Wp.query` is the rule for a statement: its locks
make more facts steady. `Lost` is what is left after a failed operation.
-/

set_option linter.unusedSectionVars false

namespace RowLock.Outline

variable {ι Slot T S W L Q E C R α β : Type} {QA : Q → Type} {EA : E → Type}
variable [DecidableEq ι] [DecidableEq Slot] [DecidableEq L]

section Definitions

variable (O : Outline ι Slot T S W L Q E QA EA R)
variable (D : Dbms T S W L Q E C QA EA) (same : L → T → T → Prop)

/-- The part `x` of a program can be run from `d`, and the program is safe if what follows `x` is
safe wherever `post` holds. -/
structure Wp (i : ι) (x : TxProg Slot Q E QA EA α) (post : α → Db ι Slot T S W L → Prop)
    (d : Db ι Slot T S W L) : Prop where
  run : ∀ K : α → TxProg Slot Q E QA EA R,
    (∀ a d', post a d' → O.Safe D same i (K a) d') → O.Safe D same i (x >>= K) d

/-- Facts that others leave alone when a transaction owns the locks `ls`. -/
def Steady (ls : List L) (F : Db ι Slot T S W L → Prop) : Prop :=
  ∀ d d', (∀ l ∈ ls, same l d.tables d'.tables) → O.le d d' → O.inv d → O.inv d' → F d → F d'

/-- The open transaction of a slot with its writes and locks, and facts; since `base`, nothing has
been committed and nothing has failed. -/
structure Held (i : ι) (t : Slot) (base : Db ι Slot T S W L) (start : Time) (ws : List W)
    (ls : List L) (F : Db ι Slot T S W L → Prop) (d : Db ι Slot T S W L) : Prop where
  tx : InTx d i t start ws ls
  after : O.After same i (some t) base d
  quiet : Quiet i base d
  facts : F d

/-- An operation has failed and nothing has been committed since `base`. -/
structure Lost (i : ι) (t : Option Slot) (base d : Db ι Slot T S W L) : Prop where
  after : O.After same i t base d
  failing : Failing i base d

/-- A transaction has been committed since `base`, and nothing has failed. -/
structure Done (i : ι) (t : Option Slot) (base : Db ι Slot T S W L) (e : Commit ι T)
    (d : Db ι Slot T S W L) : Prop where
  after : O.After same i t base d
  log : d.ownLog i = base.ownLog i ++ [e]
  failed : d.failed i = base.failed i

end Definitions

variable {O : Outline ι Slot T S W L Q E QA EA R}
variable {D : Dbms T S W L Q E C QA EA} {same : L → T → T → Prop}

section Steady

variable {ls ls' : List L} {F G : Db ι Slot T S W L → Prop}

/-- A fact that is steady under some locks stays so when more of them are held. -/
theorem Steady.mono (h : O.Steady same ls F) (hsub : ls ⊆ ls') : O.Steady same ls' F :=
  fun d d' hl => h d d' fun l hm => hl l (hsub hm)

/-- More locks after the ones there are. -/
theorem Steady.append (h : O.Steady same ls F) (more : List L) : O.Steady same (ls ++ more) F :=
  h.mono (List.subset_append_left ls more)

/-- Two steady facts are steady together, under the same locks. -/
theorem Steady.and (hF : O.Steady same ls F) (hG : O.Steady same ls G) :
    O.Steady same ls fun d => F d ∧ G d :=
  fun d d' hl hle hi hi' h =>
    ⟨hF d d' hl hle hi hi' h.1, hG d d' hl hle hi hi' h.2⟩

/-- What does not speak of the database is steady. -/
theorem Steady.const {P : Prop} : O.Steady same ls fun _ => P :=
  fun _ _ _ _ _ _ h => h

end Steady

section Rules

variable {i : ι} {d base : Db ι Slot T S W L} {post : α → Db ι Slot T S W L → Prop}

/-- A weaker postcondition holds wherever a stronger one does. -/
theorem Wp.mono {x : TxProg Slot Q E QA EA α} {post' : α → Db ι Slot T S W L → Prop}
    (h : O.Wp D same i x post d) (hpost : ∀ a d', post a d' → post' a d') :
    O.Wp D same i x post' d :=
  ⟨fun _ hK => h.run _ fun a d' ha => hK a d' (hpost a d' ha)⟩

/-- A part that has returned satisfies what holds of its result. -/
theorem Wp.ret {a : α} (h : post a d) : O.Wp D same i (Prog.ret a) post d :=
  ⟨fun _ hK => hK a d h⟩

/-- One part after another: the second one begins where the first one has ended. -/
theorem Wp.bind {x : TxProg Slot Q E QA EA β} {f : β → TxProg Slot Q E QA EA α}
    (h : O.Wp D same i x (fun b d' => O.Wp D same i (f b) post d') d) :
    O.Wp D same i (x >>= f) post d := by
  refine ⟨fun K hK => ?_⟩
  rw [Prog.bind_assoc]
  exact h.run _ fun b d' hb => hb.run K hK

/-- A whole program is safe when its end satisfies its assertion. -/
theorem Wp.safe {x : TxProg Slot Q E QA EA R}
    (h : O.Wp D same i x (fun r d' => O.asserts i (.ret r) d') d) : O.Safe D same i x d := by
  have := h.run Prog.ret fun r d' hr => hr
  rwa [Prog.bind_ret] at this

/-- The start of a transaction's description by `Held`. -/
theorem Held.weaken {t : Slot} {start : Time} {ws : List W} {ls : List L}
    {F G : Db ι Slot T S W L → Prop} (h : O.Held same i t base start ws ls F d)
    (hG : F d → G d) : O.Held same i t base start ws ls G d :=
  { h with facts := hG h.facts }

variable (hD : D.Lawful same) (hO : O.Lawful D same)
include hD hO

/-- Opening a transaction, after which nothing is locked or written yet. -/
theorem Wp.begin {t : Slot} {k : Except Failure Unit → TxProg Slot Q E QA EA α}
    (hinv : O.inv d) (hat : ∀ K, O.asserts i (.op (.begin t) K) d)
    (hfail : ∀ d', O.Lost same i none d d' → O.Wp D same i (k (Except.error .failed)) post d')
    (hok : ∀ d', O.Held same i t d d.clock [] [] (fun _ => True) d' →
      O.Wp D same i (k (Except.ok ())) post d') :
    O.Wp D same i (.op (.begin t) k) post d := by
  refine ⟨fun K hK => ?_⟩
  refine Safe.begin hD hO (hat _) hinv (fun d' ha hf => ?_) (fun d' ha htx hq => ?_)
  · exact (hfail d' ⟨ha, hf⟩).run K hK
  · exact (hok d' ⟨htx, ha, hq, trivial⟩).run K hK

/-- A statement of an open transaction. The facts `G` that hold when it is executed are steady
under the locks that the transaction owns after it. -/
theorem Wp.query {t : Slot} {q : Q} {k : Except Failure (QA q) → TxProg Slot Q E QA EA α}
    {start : Time} {ws : List W} {ls : List L} {F : Db ι Slot T S W L → Prop}
    (h : O.Held same i t base start ws ls F d) (hat : ∀ K, O.asserts i (.op (.query t q) K) d)
    (hfail : ∀ d', O.Lost same i (some t) base d' →
      O.Wp D same i (k (Except.error .failed)) post d')
    (hok : ∀ (c : C) (e : Effect S W L (QA q)),
      D.exec ⟨start, d.seq, D.applyAll d.tables ws, d.busy (some (i, t))⟩ q c = some (.ok e) →
      ∃ G : Db ι Slot T S W L → Prop, G d ∧ O.Steady same (ls ++ e.locks) G ∧
        ∀ d', O.Held same i t base start (ws ++ e.writes) (ls ++ e.locks) G d' →
          O.Wp D same i (k (Except.ok e.ans)) post d') :
    O.Wp D same i (.op (.query t q) k) post d := by
  refine ⟨fun K hK => ?_⟩
  refine Safe.query hD hO (hat _) h.after.inv h.tx (fun d' ha hf => ?_)
    fun c e d' he ha htx hrows hq => ?_
  · exact (hfail d' ⟨h.after.trans hD hO ha, hf.of_quiet h.quiet⟩).run K hK
  · obtain ⟨G, hG, hsteady, hnext⟩ := hok c e he
    exact (hnext d' ⟨htx, h.after.trans hD hO ha, h.quiet.trans hq,
      hsteady d d' hrows ha.le h.after.inv ha.inv hG⟩).run K hK

/-- A question to the environment inside a transaction. -/
theorem Wp.env {t : Slot} {e : E} {k : EA e → TxProg Slot Q E QA EA α}
    {start : Time} {ws : List W} {ls : List L} {F : Db ι Slot T S W L → Prop}
    (h : O.Held same i t base start ws ls F d) (hF : O.Steady same ls F)
    (hat : ∀ K, O.asserts i (.op (.env e) K) d)
    (hok : ∀ (c : C) a d', D.env d.clock e c = some a → O.le d d' →
      O.Held same i t base start ws ls F d' → O.Wp D same i (k a) post d') :
    O.Wp D same i (.op (.env e) k) post d := by
  refine ⟨fun K hK => ?_⟩
  refine Safe.env hD hO (hat _) h.after.inv fun c a d' he ha hq => ?_
  have hrows := ha.rows (by simp) h.tx
  exact (hok c a d' he ha.le ⟨ha.inTx (by simp) h.tx, h.after.trans hD hO ha.weaken,
    h.quiet.trans hq, hF d d' hrows ha.le h.after.inv ha.inv h.facts⟩).run K hK

/-- A question to the environment outside transactions. -/
theorem Wp.ask {e : E} {k : EA e → TxProg Slot Q E QA EA α} (hinv : O.inv d)
    (hat : ∀ K, O.asserts i (.op (.env e) K) d)
    (hok : ∀ (c : C) a d', D.env d.clock e c = some a → O.After same i none d d' →
      Quiet i d d' → O.Wp D same i (k a) post d') :
    O.Wp D same i (.op (.env e) k) post d := by
  refine ⟨fun K hK => ?_⟩
  exact Safe.env hD hO (hat _) hinv fun c a d' he ha hq => (hok c a d' he ha hq).run K hK

/-- The commit of an open transaction. Afterwards the slot has no transaction, and either nothing or
one transaction has been committed since `base`. -/
theorem Wp.commit {t : Slot} {k : Except Failure Unit → TxProg Slot Q E QA EA α}
    {start : Time} {ws : List W} {ls : List L} {F : Db ι Slot T S W L → Prop}
    (h : O.Held same i t base start ws ls F d) (hat : ∀ K, O.asserts i (.op (.commit t) K) d)
    (hfail : ∀ d', O.Lost same i (some t) base d' →
      O.Wp D same i (k (Except.error .failed)) post d')
    (hok : ∀ d', O.le d d' → d'.txs i t = none →
      O.Done same i (some t) base ⟨i, d.clock, d.tables, D.applyAll d.tables ws⟩ d' →
      O.Wp D same i (k (Except.ok ())) post d') :
    O.Wp D same i (.op (.commit t) k) post d := by
  refine ⟨fun K hK => ?_⟩
  refine Safe.commit hD hO (hat _) h.after.inv h.tx (fun d' ha _ hf => ?_)
    fun d' d'' _ _ _ ha htx hlog hfailed => ?_
  · exact (hfail d' ⟨h.after.trans hD hO ha, hf.of_quiet h.quiet⟩).run K hK
  · exact (hok d'' ha.le htx ⟨h.after.trans hD hO ha, by rw [hlog, h.quiet.log],
      hfailed.trans h.quiet.failed⟩).run K hK

/-- A statement that is a transaction of its own. -/
theorem Wp.auto {q : Q} {k : Except Failure (QA q) → TxProg Slot Q E QA EA α} (hinv : O.inv d)
    (hat : ∀ K, O.asserts i (.op (.auto q) fun r => k r >>= K) d)
    (hfail : ∀ d', O.Lost same i none d d' → O.Wp D same i (k (Except.error .failed)) post d')
    (hok : ∀ (c : C) (e : Effect S W L (QA q)) d',
      D.exec ⟨d.clock, d.seq, d.tables, d.busy none⟩ q c = some (.ok e) →
      O.Done same i none d ⟨i, d.clock, d.tables, D.applyAll d.tables e.writes⟩ d' →
      O.Wp D same i (k (Except.ok e.ans)) post d') :
    O.Wp D same i (.op (.auto q) k) post d := by
  refine ⟨fun K hK => ?_⟩
  refine Safe.auto hD hO (hat _) hinv (fun d' ha hf => ?_)
    fun c e d' d'' he _ _ _ ha hlog hfailed => ?_
  · exact (hfail d' ⟨ha, hf⟩).run K hK
  · exact (hok c e d'' he ⟨ha, hlog, hfailed⟩).run K hK

end Rules

end RowLock.Outline
