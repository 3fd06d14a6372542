import CdkSystem.Proof.Protocol

/-!
# Rules for the service's functions

The rules of `Outline.Wp` for the operations of `Go`, and the steady facts of the service: rows
under a lock stay what they are, what is in the past stays in the past.

A statement that fails leaves its transaction doomed, and the function returns an error on the way
out, so the rules have one case for an answer and one for an error. Facts about the past are steady
because the log only grows, and facts about a row are steady while its lock is held
(`steady_credential` and its relatives).
-/

namespace CdkSystem

open RowLock Relational

variable {ι : Type} [DecidableEq ι] {α β : Type}

/-- A part of a program of call `i` can be run from `d` and leads to `post`. -/
abbrev Start.Wp (start : Start ι) (i : ι) (x : M α) (post : α → Database ι → Prop)
    (d : Database ι) : Prop :=
  start.outline.Wp postgres Lock.Same i x post d

/-- An open transaction of call `i` with its writes, its locks and facts. -/
abbrev Start.Held (start : Start ι) (i : ι) (t : Slot) (base : Database ι) (now : Time)
    (ws : List Write) (ls : List Lock) (F : Database ι → Prop) (d : Database ι) : Prop :=
  start.outline.Held Lock.Same i t base now ws ls F d

/-- An operation of call `i` has failed. -/
abbrev Start.Lost (start : Start ι) (i : ι) (t : Option Slot) (base d : Database ι) : Prop :=
  start.outline.Lost Lock.Same i t base d

/-- A transaction of call `i` has been committed. -/
abbrev Start.Done (start : Start ι) (i : ι) (t : Option Slot) (base : Database ι)
    (e : Commit ι Tables) (d : Database ι) : Prop :=
  start.outline.Done Lock.Same i t base e d

/-- The transactions of call `i` other than that of a slot are where they were. -/
abbrev Start.After (start : Start ι) (i : ι) (t : Option Slot) (d d' : Database ι) : Prop :=
  start.outline.After Lock.Same i t d d'

/-- Facts that hold as long as the locks are held. -/
abbrev Start.Steady (start : Start ι) (ls : List Lock) (F : Database ι → Prop) : Prop :=
  start.outline.Steady Lock.Same ls F

variable {start : Start ι} {i : ι} {d base : Database ι}

section Go

variable {post : Except GoError α → Database ι → Prop}

/-- One function after another; an error ends both. -/
theorem Go.wp_bind {x : Go β} {f : β → Go α}
    (h : start.Wp i x.run (fun r d' =>
      match r with
      | .ok a => start.Wp i (f a).run post d'
      | .error e => post (.error e) d') d) :
    start.Wp i (x >>= f).run post d := by
  refine ⟨fun K hK => ?_⟩
  rw [Go.run_bind]
  refine h.run _ fun r d' hr => ?_
  cases r with
  | ok a => exact hr.run K hK
  | error e => exact hK _ d' hr

/-- A returned result. -/
theorem Go.wp_pure {a : α} (h : post (.ok a) d) : start.Wp i (pure a : Go α).run post d :=
  ⟨fun _ hK => hK _ d h⟩

/-- A returned error. -/
theorem Go.wp_throw {e : GoError} (h : post (.error e) d) :
    start.Wp i (throw e : Go α).run post d :=
  ⟨fun _ hK => hK _ d h⟩

end Go

/-- A query in a transaction. -/
theorem Go.wp_query {err : GoError} {t : Slot} {q : Query} {now : Time} {ws : List Write}
    {ls : List Lock} {F : Database ι → Prop} {post : Except GoError q.Ans → Database ι → Prop}
    (h : start.Held i t base now ws ls F d) (hat : ∀ K, start.At i (.op (.query t q) K) d)
    (hfail : ∀ d', start.Lost i (some t) base d' → post (.error err) d')
    (hok : ∀ c e, Query.exec ⟨now, d.seq, postgres.applyAll d.tables ws, d.busy (some (i, t))⟩ q c =
        some (.ok e) →
      ∃ G : Database ι → Prop, G d ∧ start.Steady (ls ++ e.locks) G ∧
        ∀ d', start.Held i t base now (ws ++ e.writes) (ls ++ e.locks) G d' →
          post (.ok e.ans) d') :
    start.Wp i (Go.query err t q).run post d := by
  refine Outline.Wp.query postgres_lawful start.outline_lawful h hat
    (fun d' hl => .ret (hfail d' hl)) fun c e he => ?_
  obtain ⟨G, hG, hsteady, hnext⟩ := hok c e he
  exact ⟨G, hG, hsteady, fun d' hd' => .ret (hnext d' hd')⟩

/-- A question to the outside world in a transaction. -/
theorem Go.wp_env {e : Env} {t : Slot} {now : Time} {ws : List Write} {ls : List Lock}
    {F : Database ι → Prop} {post : Except GoError e.Ans → Database ι → Prop}
    (h : start.Held i t base now ws ls F d) (hF : start.Steady ls F)
    (hok : ∀ c a d', Env.answer d.clock e c = some a → start.Le d d' →
      start.Held i t base now ws ls F d' → post (.ok a) d') :
    start.Wp i (Go.env e).run post d :=
  Outline.Wp.env postgres_lawful start.outline_lawful h hF (fun _ => trivial)
    fun c a d' ha hle hd' => .ret (hok c a d' ha hle hd')

/-- The commit of a transaction. -/
theorem Go.wp_commit {err : GoError} {t : Slot} {now : Time} {ws : List Write} {ls : List Lock}
    {F : Database ι → Prop} {post : Except GoError Unit → Database ι → Prop}
    (h : start.Held i t base now ws ls F d) (hat : start.Commits i t ⟨now, ws, false⟩ d)
    (hfail : ∀ d', start.Lost i (some t) base d' → post (.error err) d')
    (hok : ∀ d', start.Le d d' → d'.txs i t = none →
      start.Done i (some t) base ⟨i, d.clock, d.tables, postgres.applyAll d.tables ws⟩ d' →
      post (.ok ()) d') :
    start.Wp i (Go.commit err t).run post d := by
  refine Outline.Wp.commit postgres_lawful start.outline_lawful h (fun K tx htx _ => ?_)
    (fun d' hl => .ret (hfail d' hl)) fun d' hle htx hd => .ret (hok d' hle htx hd)
  rw [h.tx.tx, Option.some.injEq] at htx
  exact htx ▸ hat

/-- Opening a transaction. -/
theorem Go.wp_begin {err : GoError} {t : Slot} {post : Except GoError Unit → Database ι → Prop}
    (hinv : start.Inv d) (hfail : ∀ d', start.Lost i none d d' → post (.error err) d')
    (hok : ∀ d', start.Held i t d d.clock [] [] (fun _ => True) d' → post (.ok ()) d') :
    start.Wp i (Go.begin err t).run post d :=
  Outline.Wp.begin postgres_lawful start.outline_lawful hinv (fun _ => trivial)
    (fun d' hl => .ret (hfail d' hl)) fun d' hd' => .ret (hok d' hd')

/-- A function body with a rollback at its end. -/
theorem Go.wp_deferRollback {t : Slot} {body : Go α} {post : Except GoError α → Database ι → Prop}
    (h : start.Wp i body.run (fun r d' => start.Inv d' ∧ start.RollsBack i t d' ∧
      ∀ d'', start.After i (some t) d' d'' → d''.txs i t = none → Quiet i d' d'' →
        post r d'') d) :
    start.Wp i (Go.deferRollback t body).run post d := by
  refine ⟨fun K hK => ?_⟩
  rw [Go.run_deferRollback]
  refine h.run _ fun r d' ⟨hinv, hat, hpost⟩ => ?_
  exact Outline.Safe.rollback postgres_lawful start.outline_lawful hat hinv
    fun d'' ha htx hq => hK r d'' (hpost d'' ha htx hq)

/-- A call whose error gets a context. -/
theorem Go.wp_withContext {context : String} {x : Go α}
    {post : Except GoError α → Database ι → Prop}
    (h : start.Wp i x.run (fun r => post (r.mapError (.wrap context))) d) :
    start.Wp i (Go.withContext context x).run post d := by
  refine ⟨fun K hK => ?_⟩
  rw [Go.run_withContext]
  exact h.run _ fun r d' hr => hK _ d' hr

/-- A query outside a transaction. -/
theorem Go.wp_auto {err : GoError} {q : Query} {post : Except GoError q.Ans → Database ι → Prop}
    (hinv : start.Inv d) (hat : start.Commands i q d)
    (hq : ∀ K : Except Failure q.Ans → M Result, ReportsNext q K d)
    (hfail : ∀ d', start.Lost i none d d' → post (.error err) d')
    (hok : ∀ c e d', Query.exec ⟨d.clock, d.seq, d.tables, d.busy none⟩ q c = some (.ok e) →
      start.Done i none d ⟨i, d.clock, d.tables, postgres.applyAll d.tables e.writes⟩ d' →
      post (.ok e.ans) d') :
    start.Wp i (Go.auto err q).run post d :=
  Outline.Wp.auto postgres_lawful start.outline_lawful hinv (fun _ => ⟨hat, hq _⟩)
    (fun d' hl => .ret (hfail d' hl)) fun c e d' he hd' => .ret (hok c e d' he hd')

/-- A question to the outside world outside transactions. -/
theorem wp_ask {e : Env} {post : e.Ans → Database ι → Prop} (hinv : start.Inv d)
    (hok : ∀ c a d', Env.answer d.clock e c = some a → start.After i none d d' → Quiet i d d' →
      post a d') :
    start.Wp i (ask e) post d :=
  Outline.Wp.ask postgres_lawful start.outline_lawful hinv (fun _ => trivial)
    fun c a d' ha hd' hq => .ret (hok c a d' ha hd' hq)

/-- A query outside a transaction that only reads. -/
theorem Go.wp_read {err : GoError} {q : Query} {post : Except GoError q.Ans → Database ι → Prop}
    (hinv : start.Inv d)
    (hread : ∀ ctx c e, Query.exec ctx q c = some (.ok e) → e.writes = [])
    (hq : ∀ K : Except Failure q.Ans → M Result, ReportsNext q K d)
    (h : ∀ r d', start.After i none d d' →
      (∀ e ∈ d'.ownLog i, e ∈ d.ownLog i ∨ e.after = e.before) → post r d') :
    start.Wp i (Go.auto err q).run post d := by
  refine Go.wp_auto hinv (fun c e he => .idle ?_) hq (fun d' hl => h _ d' hl.after fun e he => ?_)
    fun c e d' he hd => h _ d' hd.after fun e' he' => ?_
  · rw [hread _ c e he]
    rfl
  · exact Or.inl (hl.failing.log ▸ he)
  · rw [hd.log, List.mem_append, List.mem_singleton] at he'
    refine he'.imp_right fun h => ?_
    rw [h, hread _ c e he]
    rfl

/-! ## Steady facts -/

section Steady

variable {ls : List Lock}

/-- What only depends on a batch's row is steady under its lock. -/
theorem steady_batch {id : ℕ} (P : Option Batch → Prop) (h : Lock.batch id ∈ ls) :
    start.Steady ls fun d => P (d.tables.batches.get? id) := by
  intro d d' hsame _ _ _ hP
  rwa [show d'.tables.batches.get? id = d.tables.batches.get? id from hsame _ h]

/-- What only depends on a code's row is steady under its lock. -/
theorem steady_code {id : ℕ} (P : Option Code → Prop) (h : Lock.code id ∈ ls) :
    start.Steady ls fun d => P (d.tables.codes.get? id) := by
  intro d d' hsame _ _ _ hP
  rwa [show d'.tables.codes.get? id = d.tables.codes.get? id from hsame _ h]

/-- What only depends on a credential's row is steady under its lock. -/
theorem steady_credential {id : ℕ} (P : Option Credential → Prop) (h : Lock.credential id ∈ ls) :
    start.Steady ls fun d => P (d.tables.credentials.get? id) := by
  intro d d' hsame _ _ _ hP
  rwa [show d'.tables.credentials.get? id = d.tables.credentials.get? id from hsame _ h]

/-- What only depends on a key's row is steady under its lock. -/
theorem steady_key {k : String} (P : Option IdempotencyKey → Prop) (h : Lock.key k ∈ ls) :
    start.Steady ls fun d => P (d.tables.keys.get? k) := by
  intro d d' hsame _ _ _ hP
  rwa [show d'.tables.keys.get? k = d.tables.keys.get? k from hsame _ h]

/-- What only depends on a redemption's row is steady under its lock. -/
theorem steady_redemption {id : ℕ} (P : Option Redemption → Prop) (h : Lock.redemption id ∈ ls) :
    start.Steady ls fun d => P (d.tables.redemptions.get? id) := by
  intro d d' hsame _ _ _ hP
  rwa [show d'.tables.redemptions.get? id = d.tables.redemptions.get? id from hsame _ h]

/-- What only depends on an outbox row is steady under its lock. -/
theorem steady_outbox {id : ℕ} (P : Option WebhookOutbox → Prop) (h : Lock.outbox id ∈ ls) :
    start.Steady ls fun d => P (d.tables.outbox.get? id) := by
  intro d d' hsame _ _ _ hP
  rwa [show d'.tables.outbox.get? id = d.tables.outbox.get? id from hsame _ h]

/-- That no redemption has an event is steady under the event's lock. -/
theorem steady_redemptionEvent {event : String} (h : Lock.redemptionEvent event ∈ ls) :
    start.Steady ls fun d => ¬ d.tables.HasRedemptionEvent event :=
  fun _ _ hsame _ _ _ hP hx => hP (hsame _ h hx)

/-- That no outbox row has an event is steady under the event's lock. -/
theorem steady_outboxEvent {event : String} (h : Lock.outboxEvent event ∈ ls) :
    start.Steady ls fun d => ¬ d.tables.HasOutboxEvent event :=
  fun _ _ hsame _ _ _ hP hx => hP (hsame _ h hx)

/-- That no code has a text is steady under the text's lock. -/
theorem steady_codeText {text : String} (h : Lock.codeText text ∈ ls) :
    start.Steady ls fun d => ¬ d.tables.HasCodeText text :=
  fun _ _ hsame _ _ _ hP hx => hP (hsame _ h hx)

/-- Instants in the past stay in the past. -/
theorem steady_clock {now : Time} : start.Steady ls fun d => start.clock ≤ now ∧ now ≤ d.clock :=
  fun _ _ _ hle _ _ h => ⟨h.1, h.2.trans hle.clock⟩

/-- Tables in the past stay in the past. -/
theorem steady_past {T : Tables} : start.Steady ls fun d => Past d.log d.tables T :=
  fun _ _ _ hle _ _ h => hle.past T h

end Steady

end CdkSystem
