import CdkSystem.BatchForm
import CdkSystem.Lib.Traces
import CdkSystem.Proof.Exec
import CdkSystem.System

/-!
# The form's expiry and the API

The API reads the expiry of a new batch with the layout `time.RFC3339`, which ends with a zone
(`zone_suffix`). A local date and time has none (`parseRFC3339_text`), so the form and the API agree
on the expiry exactly when the field is empty (`expiryAgrees_iff`).

That no local date and time is read with `time.RFC3339` is shown on the reader: each of its parts
leaves a suffix of the text (`parseRFC3339_suffix`), and the zone at the end begins with a character
that the form's texts do not have. What a call makes of the expiry that it is given is followed
through the handler by `Asks`, which says of a program, whatever it is answered, for which
operations it asks. So the result is about whole runs, from what is typed into the form to the row
of the batch.
-/

namespace CdkSystem

open RowLock

/-! ## Times without a zone -/

namespace GoTime

/-- What is left of a number is at its end. -/
theorem getnum_suffix {fixed : Bool} {s rest : List Char} {n : ℕ}
    (h : getnum fixed s = some (n, rest)) : rest <:+ s := by
  match s, h with
  | [a], h =>
    simp only [getnum] at h
    split_ifs at h
    obtain ⟨-, rfl⟩ := Prod.mk.inj (Option.some.inj h)
    exact List.nil_suffix
  | a :: b :: cs, h =>
    simp only [getnum] at h
    split_ifs at h
    · obtain ⟨-, rfl⟩ := Prod.mk.inj (Option.some.inj h)
      exact ⟨[a, b], rfl⟩
    · obtain ⟨-, rfl⟩ := Prod.mk.inj (Option.some.inj h)
      exact ⟨[a], rfl⟩

/-- A bound on a number takes nothing more from the text than the number did. -/
theorem within_suffix {lo hi n : ℕ} {fixed : Bool} {s rest : List Char}
    (h : within lo hi (getnum fixed s) = some (n, rest)) : rest <:+ s :=
  getnum_suffix (Option.filter_eq_some_iff.mp h).1

/-- What is left of a year is at its end. -/
theorem longYear_suffix {s rest : List Char} {n : ℕ} (h : longYear s = some (n, rest)) :
    rest <:+ s := by
  match s, h with
  | a :: b :: c :: d :: cs, h =>
    simp only [longYear] at h
    split_ifs at h
    obtain ⟨-, rfl⟩ := Prod.mk.inj (Option.some.inj h)
    exact ⟨[a, b, c, d], rfl⟩

/-- What is left after a character is at its end. -/
theorem skip_suffix {c : Char} {s rest : List Char} (h : skip c s = some rest) : rest <:+ s := by
  match s, h with
  | d :: cs, h =>
    simp only [skip] at h
    split_ifs at h
    obtain rfl := Option.some.inj h
    exact ⟨[d], rfl⟩

/-- What is left after a fraction is at its end. -/
theorem fraction_suffix (s : List Char) : (fraction s).2 <:+ s := by
  match s with
  | [] => exact List.suffix_refl _
  | [p] => exact List.suffix_refl _
  | p :: d :: rest =>
    rw [fraction]
    split_ifs
    · exact (List.dropWhile_suffix _).trans ⟨[p], rfl⟩
    · exact List.suffix_refl _

/-- What is left of a date and time is at the end of the value. -/
theorem parseCivil_suffix {sep : List Char → Option (List Char)}
    (hsep : ∀ s rest, sep s = some rest → rest <:+ s) {s rest : List Char} {c : Civil}
    (h : parseCivil sep s = some (c, rest)) : rest <:+ s := by
  unfold parseCivil at h
  obtain ⟨⟨year, s₁⟩, h₁, h⟩ := Option.bind_eq_some_iff.mp h
  obtain ⟨s₂, h₂, h⟩ := Option.bind_eq_some_iff.mp h
  obtain ⟨⟨month, s₃⟩, h₃, h⟩ := Option.bind_eq_some_iff.mp h
  obtain ⟨s₄, h₄, h⟩ := Option.bind_eq_some_iff.mp h
  obtain ⟨⟨day, s₅⟩, h₅, h⟩ := Option.bind_eq_some_iff.mp h
  obtain ⟨s₆, h₆, h⟩ := Option.bind_eq_some_iff.mp h
  obtain ⟨⟨hour, s₇⟩, h₇, h⟩ := Option.bind_eq_some_iff.mp h
  obtain ⟨s₈, h₈, h⟩ := Option.bind_eq_some_iff.mp h
  obtain ⟨⟨minute, s₉⟩, h₉, h⟩ := Option.bind_eq_some_iff.mp h
  obtain ⟨s₁₀, h₁₀, h⟩ := Option.bind_eq_some_iff.mp h
  obtain ⟨⟨sec, s₁₁⟩, h₁₁, h⟩ := Option.bind_eq_some_iff.mp h
  obtain ⟨-, rfl⟩ := Prod.mk.inj (Option.some.inj h)
  -- Each part of the text leaves a suffix of what it was given.
  calc (fraction s₁₁).2 <:+ s₁₁ := fraction_suffix s₁₁
    _ <:+ s₁₀ := within_suffix h₁₁
    _ <:+ s₉ := skip_suffix h₁₀
    _ <:+ s₈ := within_suffix h₉
    _ <:+ s₇ := skip_suffix h₈
    _ <:+ s₆ := within_suffix h₇
    _ <:+ s₅ := hsep _ _ h₆
    _ <:+ s₄ := within_suffix h₅
    _ <:+ s₃ := skip_suffix h₄
    _ <:+ s₂ := within_suffix h₃
    _ <:+ s₁ := skip_suffix h₂
    _ <:+ s := longYear_suffix h₁

/-- A zone up to the end is `Z` or an offset of six characters with a sign in front. -/
theorem zone_eq_some {s : List Char} {offset : ℤ} (h : zone s = some (offset, [])) :
    s = ['Z'] ∨ ∃ sign tail, s = sign :: tail ∧ tail.length = 5 ∧ (sign = '+' ∨ sign = '-') := by
  unfold zone at h
  split at h
  · obtain ⟨-, rfl⟩ := Prod.mk.inj (Option.some.inj h)
    exact Or.inl rfl
  · split_ifs at h with hcolon hplus hminus
    · obtain ⟨hr, -, h⟩ := Option.bind_eq_some_iff.mp h
      obtain ⟨mm, -, h⟩ := Option.bind_eq_some_iff.mp h
      obtain ⟨-, rfl⟩ := Prod.mk.inj (Option.some.inj h)
      exact Or.inr ⟨_, _, rfl, rfl, Or.inl hplus⟩
    · obtain ⟨hr, -, h⟩ := Option.bind_eq_some_iff.mp h
      obtain ⟨mm, -, h⟩ := Option.bind_eq_some_iff.mp h
      obtain ⟨-, rfl⟩ := Prod.mk.inj (Option.some.inj h)
      exact Or.inr ⟨_, _, rfl, rfl, Or.inr hminus⟩
    · obtain ⟨hr, -, h⟩ := Option.bind_eq_some_iff.mp h
      obtain ⟨mm, -, h⟩ := Option.bind_eq_some_iff.mp h
      cases h
  · cases h

/-- A value that is parsed with its zone ends with one. -/
theorem parseRFC3339_suffix {value : String} {t : Time} (h : parseRFC3339 value = some t) :
    ['Z'] <:+ value.toList ∨ ∃ sign tail, sign :: tail <:+ value.toList ∧ tail.length = 5 ∧
      (sign = '+' ∨ sign = '-') := by
  unfold parseRFC3339 at h
  obtain ⟨⟨c, s₁⟩, hcivil, h⟩ := Option.bind_eq_some_iff.mp h
  obtain ⟨⟨offset, s₂⟩, hzone, h⟩ := Option.bind_eq_some_iff.mp h
  dsimp only at h
  split_ifs at h with hnil
  subst hnil
  have hsuffix := parseCivil_suffix (fun _ _ => skip_suffix) hcivil
  rcases zone_eq_some hzone with rfl | ⟨sign, tail, rfl, hlength, hsign⟩
  · exact Or.inl hsuffix
  · exact Or.inr ⟨sign, tail, hsuffix, hlength, hsign⟩

end GoTime

/-- The characters of a time of the day. -/
def IsClockChar (c : Char) : Prop := c.isDigit = true ∨ c = ':' ∨ c = '.'

/-- A numeral consists of digits, with the leading zeros among them. -/
theorem isDigit_of_mem_numeral {width n : ℕ} {c : Char} (h : c ∈ numeral width n) :
    c.isDigit = true := by
  obtain ⟨d, hd, rfl⟩ := List.mem_map.mp h
  have hdigit : ∀ d < 10, (Char.ofNat (48 + d)).isDigit = true := by decide
  exact hdigit d (Decimal.lt_of_mem_padded hd)

/-- The seconds consist of characters of times of the day. -/
theorem isClockChar_of_mem_secondsText {second : Option (ℕ × List (Fin 10))} {c : Char}
    (h : c ∈ secondsText second) : IsClockChar c := by
  match second, h with
  | some (s, []), h =>
    rw [secondsText, List.mem_cons] at h
    rcases h with rfl | h
    · exact Or.inr (Or.inl rfl)
    · exact Or.inl (isDigit_of_mem_numeral h)
  | some (s, d :: ds), h =>
    rw [secondsText, List.mem_cons, List.mem_append, List.mem_cons] at h
    rcases h with rfl | h | rfl | h
    · exact Or.inr (Or.inl rfl)
    · exact Or.inl (isDigit_of_mem_numeral h)
    · exact Or.inr (Or.inr rfl)
    · obtain ⟨d, -, rfl⟩ := List.mem_map.mp h
      have hdigit : ∀ d : Fin 10, (Char.ofNat (48 + d.val)).isDigit = true := by decide
      exact Or.inl (hdigit d)

/-- A numeral has at least its width. -/
theorem le_length_numeral (width n : ℕ) : width ≤ (numeral width n).length := by
  simp only [numeral, Decimal.padded, List.length_map, List.length_append, List.length_replicate]
  omega

/-- A local date and time ends with at least five characters of a time of the day behind the letter
T. -/
theorem LocalDateTime.text_eq (d : LocalDateTime) : ∃ date clock, d.text = date ++ 'T' :: clock ∧
    5 ≤ clock.length ∧ ∀ c ∈ clock, IsClockChar c := by
  refine ⟨numeral 4 d.year ++ '-' :: (numeral 2 d.month ++ '-' :: numeral 2 d.day),
    numeral 2 d.hour ++ ':' :: (numeral 2 d.minute ++ secondsText d.second),
    by simp [LocalDateTime.text], ?_, ?_⟩
  · have hhour := le_length_numeral 2 d.hour
    have hminute := le_length_numeral 2 d.minute
    simp only [List.length_append, List.length_cons]
    omega
  · intro c hc
    rw [List.mem_append, List.mem_cons, List.mem_append] at hc
    rcases hc with hc | rfl | hc | hc
    · exact Or.inl (isDigit_of_mem_numeral hc)
    · exact Or.inr (Or.inl rfl)
    · exact Or.inl (isDigit_of_mem_numeral hc)
    · exact isClockChar_of_mem_secondsText hc

/-- Of the characters of a time of the day and the letter T, none is part of a zone. -/
theorem not_isClockChar {c : Char} (h : c = 'Z' ∨ c = '+' ∨ c = '-') : ¬IsClockChar c := by
  unfold IsClockChar
  rcases h with rfl | rfl | rfl <;> decide

/-- The API accepts no local date and time. -/
theorem parseRFC3339_text (d : LocalDateTime) :
    GoTime.parseRFC3339 (String.ofList d.text) = none := by
  obtain ⟨date, clock, htext, hlength, hclock⟩ := d.text_eq
  by_contra hne
  obtain ⟨t, ht⟩ := Option.ne_none_iff_exists'.mp hne
  have hsuffix := GoTime.parseRFC3339_suffix ht
  rw [String.toList_ofList, htext] at hsuffix
  have hend : 'T' :: clock <:+ date ++ 'T' :: clock := List.suffix_append _ _
  -- What ends the text is within the letter T and the time.
  have hmem : ∀ c s, c :: s <:+ date ++ 'T' :: clock → s.length ≤ 5 → c ∈ 'T' :: clock := by
    intro c s hs hle
    have hwithin := List.suffix_of_suffix_length_le hs hend (by simp; omega)
    exact hwithin.subset (by simp)
  have hnone : ∀ c, (c = 'Z' ∨ c = '+' ∨ c = '-') → c ∉ 'T' :: clock := by
    intro c hc hin
    rcases List.mem_cons.mp hin with rfl | hin
    · exact absurd hc (by decide)
    · exact not_isClockChar hc (hclock c hin)
  rcases hsuffix with hz | ⟨sign, tail, hs, htail, hsign⟩
  · exact hnone 'Z' (Or.inl rfl) (hmem 'Z' [] hz (by simp))
  · exact hnone sign (Or.inr hsign) (hmem sign tail hs (by omega))

/-! ## What a call asks for and returns -/

variable {α β : Type}

/-- Whatever it is answered, a program asks only for operations with a property, and returns only
results with another one. -/
structure Asks (P : TxOp Slot Query Env → Prop) (post : α → Prop) (p : M α) : Prop where
  follows : ∀ trace, Prog.Follows (fun _ o => P o) (fun _ a => post a) trace p

variable {P : TxOp Slot Query Env → Prop} {post : α → Prop}

/-- A program that has returned asks for nothing more. -/
theorem Asks.ret {a : α} (h : post a) : Asks P post (.ret a) := ⟨fun _ => h⟩

/-- A returned result, with which a program asks for nothing more. -/
theorem Asks.pure {a : α} (h : post a) : Asks P post (Pure.pure a) := ⟨fun _ => h⟩

/-- An operation that may be asked for, and what follows any answer to it. -/
theorem Asks.op {o : TxOp Slot Query Env} {k : o.Ans Query.Ans Env.Ans → M α} (ho : P o)
    (hk : ∀ a, Asks P post (k a)) : Asks P post (.op o k) :=
  ⟨fun _ => ⟨ho, fun a => (hk a).follows _⟩⟩

/-- A program and what follows it, for any result that the first part may have. -/
theorem Asks.bind {post' : β → Prop} {p : M β} {f : β → M α} (hp : Asks P post' p)
    (hf : ∀ a, post' a → Asks P post (f a)) : Asks P post (p >>= f) := by
  refine ⟨fun trace => ?_⟩
  exact .bind ((hp.follows trace).mono fun trace' a ha => (hf a ha).follows trace')

namespace Go

/-- A function that may return an error asks only for operations with a property. -/
def Asks (P : TxOp Slot Query Env → Prop) (x : Go α) : Prop :=
  CdkSystem.Asks P (fun _ => True) x.run

/-- One function after another, each of which asks only for what it may. -/
theorem Asks.bind {x : Go β} {f : β → Go α} (hx : x.Asks P) (hf : ∀ a, (f a).Asks P) :
    (x >>= f).Asks P := by
  unfold Asks
  rw [ExceptT.run_bind]
  refine CdkSystem.Asks.bind hx fun r _ => ?_
  cases r with
  | ok a => exact hf a
  | error e => exact .ret trivial

/-- A returned result is no operation, so nothing is asked for. -/
theorem asks_pure (a : α) : (pure a : Go α).Asks P := .ret trivial

/-- A returned error is no operation, so nothing is asked for. -/
theorem asks_throw (e : GoError) : (throw e : Go α).Asks P := .ret trivial

/-- A transaction is opened, where that may be asked for. -/
theorem asks_begin {err : GoError} {t : Slot} (h : P (.begin t)) : (Go.begin err t).Asks P :=
  .op h fun r => by cases r <;> exact .ret trivial

/-- A query of a transaction, where it may be asked for. -/
theorem asks_query {err : GoError} {t : Slot} {q : Query} (h : P (.query t q)) :
    (Go.query err t q).Asks P :=
  .op h fun r => by cases r <;> exact .ret trivial

/-- A query outside a transaction, where it may be asked for. -/
theorem asks_auto {err : GoError} {q : Query} (h : P (.auto q)) : (Go.auto err q).Asks P :=
  .op h fun r => by cases r <;> exact .ret trivial

/-- A commit of a transaction, where it may be asked for. -/
theorem asks_commit {err : GoError} {t : Slot} (h : P (.commit t)) : (Go.commit err t).Asks P :=
  .op h fun r => by cases r <;> exact .ret trivial

/-- A question to the outside world, where it may be asked for. -/
theorem asks_env {e : Env} (h : P (.env e)) : (Go.env e).Asks P := .op h fun _ => .ret trivial

/-- A rollback at the end of a body that asks only for what it may. -/
theorem asks_deferRollback {t : Slot} {body : Go α} (h : P (.rollback t)) (hbody : body.Asks P) :
    (Go.deferRollback t body).Asks P :=
  CdkSystem.Asks.bind hbody fun _ _ => .op h fun _ => .ret trivial

end Go

/-- What an inserted batch has for its expiry. -/
def InsertsExpiry (expiresAt : Option Time) : TxOp Slot Query Env → Prop
  | .query _ (.createBatch p) => p.expiresAt = expiresAt
  | _ => True

/-- The transaction of `createBatch` inserts the expiry that it is given. -/
theorem asks_createBatchTx (rt : Runtime) (req : CreateBatchRequest) (expiresAt : Option Time)
    (draws : List (Fin 31)) :
    (createBatchTx rt req expiresAt draws).Asks (InsertsExpiry expiresAt) := by
  have hcreate : (Go.query (.wrap "create batch" .database) .tx
      (.createBatch (req.params rt expiresAt))).Asks (InsertsExpiry expiresAt) :=
    Go.asks_query rfl
  unfold createBatchTx
  generalize req.params rt expiresAt = p at hcreate ⊢
  apply Go.Asks.bind hcreate
  intro b
  cases generateCodes (toUpper req.codePrefix) req.codeLength.toNat req.count.toNat draws with
  | none =>
    have hdiverge : (Go.env .diverge).Asks (InsertsExpiry expiresAt) := Go.asks_env trivial
    exact Go.Asks.bind hdiverge fun never => nomatch never
  | some codes =>
    apply Go.Asks.bind (Go.asks_query trivial)
    intro inserted
    split_ifs
    · exact Go.asks_throw _
    · exact Go.Asks.bind (Go.asks_commit trivial) fun _ => Go.asks_pure _

/-- `createBatch` inserts the expiry that it is given. -/
theorem asks_createBatch (rt : Runtime) (req : CreateBatchRequest) (expiresAt : Option Time)
    (draws : List (Fin 31)) :
    (createBatch rt req expiresAt draws).Asks (InsertsExpiry expiresAt) :=
  Go.Asks.bind (Go.asks_begin trivial) fun _ =>
    Go.asks_deferRollback trivial (asks_createBatchTx rt req expiresAt draws)

/-- A reply with another message does not reject the format of the expiry. -/
theorem ne_invalidExpiry {reply : Reply} (h : reply.message ≠ "过期时间格式错误") :
    reply ≠ respondError 400 "过期时间格式错误" [] := by
  rintro rfl
  exact h rfl

/-- The end of `CreateBatch` inserts the expiry that it is given, and does not reject its format. -/
theorem asks_createCheckedBatch (rt : Runtime) (req : CreateBatchRequest)
    (expiresAt : Option Time) (draws : List (Fin 31)) :
    Asks (InsertsExpiry expiresAt) (fun reply => reply ≠ respondError 400 "过期时间格式错误" [])
      (createCheckedBatch rt req expiresAt draws) := by
  have hfailed : respondError 500 "创建批次失败" [] ≠ respondError 400 "过期时间格式错误" [] :=
    ne_invalidExpiry (by decide)
  have hcreated : respondOK "批次创建成功" ≠ respondError 400 "过期时间格式错误" [] :=
    ne_invalidExpiry (by decide)
  have hcreate := asks_createBatch rt req expiresAt draws
  unfold createCheckedBatch
  unfold Go.Asks at hcreate
  apply Asks.bind hcreate
  intro r _
  cases r with
  | error e => exact Asks.pure hfailed
  | ok id => exact Asks.pure hcreated

/-- A request whose expiry can be read is not rejected for its format, and a batch is inserted with
that expiry. -/
theorem asks_createBatchHandler {rt : Runtime} {request : CreateBatchRequest}
    {expiresAt : Option Time} (draws : List (Fin 31))
    (hexpiry : request.normalized.expiry rt = some expiresAt) :
    Asks (InsertsExpiry expiresAt) (fun reply => reply ≠ respondError 400 "过期时间格式错误" [])
      (createBatchHandler rt request draws) := by
  unfold createBatchHandler
  generalize request.normalized = req at hexpiry ⊢
  have hsecret : Asks (InsertsExpiry expiresAt) (fun _ => True) (chooseSecret req) := by
    unfold chooseSecret
    split_ifs
    · exact .op trivial fun _ => .ret trivial
    · exact .pure trivial
  simp only
  rcases Classical.em (validateCreateBatch rt req = []) with hvalid | hvalid
  swap
  · -- A validation error has another message than the one about the expiry.
    have hmessage : "输入校验失败" ≠ "过期时间格式错误" := by decide
    rw [if_pos hvalid]
    exact Asks.pure (ne_invalidExpiry hmessage)
  rw [if_neg (not_not_intro hvalid), hexpiry]
  apply Asks.bind hsecret
  intro secret _
  have hchecked := asks_createCheckedBatch rt { req with webhookSecret := secret } expiresAt draws
  generalize createCheckedBatch rt { req with webhookSecret := secret } expiresAt draws = x
    at hchecked ⊢
  -- Only batches that assign credentials ask for the inventory.
  split_ifs
  swap
  · exact hchecked
  have hcount : (Go.auto .database (.countAvailableCredentialsByPlan req.credentialPlanType)).Asks
      (InsertsExpiry expiresAt) := Go.asks_auto trivial
  unfold Go.Asks at hcount
  apply Asks.bind hcount
  intro r _
  cases r with
  | error e => exact Asks.pure (ne_invalidExpiry (by decide))
  | ok available =>
    dsimp only
    split_ifs
    · exact Asks.pure (ne_invalidExpiry (by decide))
    · exact hchecked

/-! ## Whole runs -/

variable {ι : Type} [DecidableEq ι] {start : Start ι} {i : ι}

/-- Whether a call that creates a batch agrees with the expiry that the form's field held: in no run
it is rejected for the format of the expiry, and in every run a batch that it inserts has no expiry
exactly when the field is empty. -/
structure ExpiryAgrees (start : Start ι) (i : ι) (field : DateTimeValue) : Prop where
  notRejected : ∀ as s, start.run as = some s →
    s.progs i ≠ some (.ret (.reply (respondError 400 "过期时间格式错误" [])))
  inserted : ∀ as s traces, Sys.Traced postgres start.state as s traces → ∀ (t : Slot) p b,
    ⟨.query t (.createBatch p), .ok b⟩ ∈ traces i → (b.expiresAt = none ↔ field = .empty)

/-- The program of a call keeps to what it keeps to from the beginning. -/
theorem Asks.run {P : TxOp Slot Query Env → Prop} {post : Result → Prop}
    {as : List (Action ι Choice)}
    {s : State ι} {p : M Result} (h : Asks P post (callProgram start.rt (start.calls i)))
    (hrun : start.run as = some s) (hp : s.progs i = some p) :
    (∀ o k, p = .op o k → P o) ∧ ∀ r, p = .ret r → post r := by
  obtain ⟨traces, ht⟩ := Sys.exists_traced hrun
  have hfollows := ht.follows (i := i) (fun p hp => Option.some.inj hp ▸ h.follows []) p hp
  refine ⟨?_, ?_⟩
  · rintro o k rfl
    exact hfollows.1
  · rintro r rfl
    exact hfollows

/-- An inserted batch has the expiry that was asked for. -/
theorem expiresAt_of_inserted {as : List (Action ι Choice)} {s : State ι}
    {traces : Traces ι Slot Query Env Query.Ans Env.Ans} {expiresAt : Option Time}
    {post : Result → Prop} (h : Asks (InsertsExpiry expiresAt) post
      (callProgram start.rt (start.calls i)))
    (ht : Sys.Traced postgres start.state as s traces) {t : Slot} {p : CreateBatchParams}
    {b : Batch}
    (hm : ⟨.query t (.createBatch p), .ok b⟩ ∈ traces i) : b.expiresAt = expiresAt := by
  obtain ⟨as₁, act, as₂, s₁, k, d, -, hrun, hp, hanswers⟩ := ht.happened hm
  have hasked := (h.run hrun hp).1 _ k rfl
  cases hanswers.opStep.did with
  | query c htx hdoomed hexec hlocks =>
    have he : Query.exec _ (.createBatch p) c = some (.ok _) := hexec
    obtain ⟨payload, -, -, rfl⟩ := exec_createBatch he
    exact hasked

/-- A request whose expiry cannot be read is rejected at once. -/
theorem createBatchHandler_rejects {rt : Runtime} {request : CreateBatchRequest}
    (draws : List (Fin 31)) (hvalid : validateCreateBatch rt request.normalized = [])
    (hexpiry : request.normalized.expiry rt = none) :
    createBatchHandler rt request draws = .ret (respondError 400 "过期时间格式错误" []) := by
  unfold createBatchHandler
  simp only
  rw [if_neg (not_not_intro hvalid), hexpiry]
  rfl

/-- The value of a field that is not empty is no empty text. -/
theorem DateTimeValue.value_ne (d : LocalDateTime) : (DateTimeValue.dateTime d).value ≠ "" := by
  intro h
  obtain ⟨date, clock, htext, -⟩ := d.text_eq
  have hlist := congrArg String.toList h
  rw [DateTimeValue.value, String.toList_ofList, htext] at hlist
  simp at hlist

variable {syntaxError : String → Option String} {list : PlanList} {form : BatchInput}
  {request : CreateBatchRequest} {draws : List (Fin 31)}

/-- The form's request has the value of the field for its expiry. -/
theorem expiresAt_of_handleSubmit (h : handleSubmit syntaxError list form = .ok request) :
    request.expiresAt = some form.expiresAt.value := by
  unfold handleSubmit at h
  split_ifs at h
  obtain rfl := Except.ok.inj h
  rfl

/-- The API cannot read the value of a field that is not empty. -/
theorem expiry_of_dateTime {rt : Runtime} {req : CreateBatchRequest} {d : LocalDateTime}
    (hparse : rt.parseTime = GoTime.parseRFC3339)
    (hfield : req.expiresAt = some (DateTimeValue.dateTime d).value) : req.expiry rt = none := by
  have hne := DateTimeValue.value_ne d
  have hnone : rt.parseTime (DateTimeValue.dateTime d).value = none := by
    rw [hparse]
    exact parseRFC3339_text d
  rw [CreateBatchRequest.expiry, hfield]
  split
  · rename_i heq
    cases heq
  · rename_i heq
    exact absurd (Option.some.inj heq) hne
  · rename_i s _ heq
    rw [← Option.some.inj heq, hnone]
    rfl

omit [DecidableEq ι] in
/-- The program of a call that creates a batch. -/
theorem callProgram_createBatch (hcall : start.calls i = .createBatch request draws) :
    callProgram start.rt (start.calls i) =
      createBatchHandler start.rt request draws >>= fun r => .ret (.reply r) := by
  rw [hcall]
  rfl

omit [DecidableEq ι] in
/-- A call whose expiry can be read asks for no batch with another one, and is not rejected for it.
-/
theorem asks_callProgram {expiresAt : Option Time}
    (hcall : start.calls i = .createBatch request draws)
    (hexpiry : request.normalized.expiry start.rt = some expiresAt) :
    Asks (InsertsExpiry expiresAt)
      (fun r => r ≠ Result.reply (respondError 400 "过期时间格式错误" []))
      (callProgram start.rt (start.calls i)) := by
  have hasks := asks_createBatchHandler draws hexpiry
  rw [callProgram_createBatch hcall]
  generalize createBatchHandler start.rt request draws = x at hasks ⊢
  apply Asks.bind hasks
  intro reply hreply
  have hne : Result.reply reply ≠ Result.reply (respondError 400 "过期时间格式错误" []) :=
    mt Result.reply.inj hreply
  exact Asks.ret hne

omit [DecidableEq ι] in
/-- A call whose expiry cannot be read is rejected as soon as it begins. -/
theorem rejected_of_expiry (hcall : start.calls i = .createBatch request draws)
    (hvalid : validateCreateBatch start.rt request.normalized = [])
    (hexpiry : request.normalized.expiry start.rt = none) :
    start.state.progs i = some (.ret (.reply (respondError 400 "过期时间格式错误" []))) := by
  have hprogram := callProgram_createBatch hcall
  rw [createBatchHandler_rejects draws hvalid hexpiry] at hprogram
  exact congrArg some hprogram

/-- The form and the API agree on the expiry exactly when the field is empty. -/
theorem expiryAgrees_iff (hsubmit : handleSubmit syntaxError list form = .ok request)
    (hcall : start.calls i = .createBatch request draws)
    (hparse : start.rt.parseTime = GoTime.parseRFC3339)
    (hvalid : validateCreateBatch start.rt request.normalized = []) :
    ExpiryAgrees start i form.expiresAt ↔ form.expiresAt = .empty := by
  have hsent : request.expiresAt = some form.expiresAt.value := expiresAt_of_handleSubmit hsubmit
  have hfield : request.normalized.expiresAt = some form.expiresAt.value := hsent
  constructor
  · intro h
    cases hvalue : form.expiresAt with
    | empty => rfl
    | dateTime d =>
      rw [hvalue] at hfield
      have hexpiry := expiry_of_dateTime hparse hfield
      have hrejected := rejected_of_expiry hcall hvalid hexpiry
      exact absurd hrejected (h.notRejected [] start.state rfl)
  · intro hempty
    have hexpiry : request.normalized.expiry start.rt = some none := by
      rw [CreateBatchRequest.expiry, hfield, hempty]
      rfl
    have hasks := asks_callProgram hcall hexpiry
    refine ⟨?_, ?_⟩
    · intro as s hrun hp
      exact (hasks.run hrun hp).2 _ rfl rfl
    · intro as s traces ht t p b hm
      have hnone := expiresAt_of_inserted hasks ht hm
      exact iff_of_true hnone hempty

/-- A filled-in form with a value in the field for the expiry. -/
def filledForm (expiresAt : DateTimeValue) : BatchInput where
  name := "July"
  description := ""
  payloadJSON := "{}"
  count := 1
  codePrefix := "AB"
  codeLength := 8
  expiresAt := expiresAt
  maxUsesPerCode := 1
  maxRedeemsPerUser := 1
  assignCredential := false
  credentialPlanType := ""
  webhookURL := ""
  webhookSecret := ""

/-- Noon of the 17th of July 2026, as the field holds it. -/
def julyNoon : LocalDateTime :=
  ⟨2026, 7, 17, 12, 0, none, by decide, by decide, by decide, by decide, by decide, nofun⟩

/-- A start of one call, with the request of a form. -/
def submitted (form : BatchInput) : Start Unit :=
  { Start.of (fun _ => .createBatch form.request (List.replicate 8 0)) .empty ⟨0, 0, 0, 0, 0⟩
      Tables.empty_below Tables.checkIntegrity_empty with
    rt := { Runtime.simple with parseTime := GoTime.parseRFC3339 } }

/-- With an empty field the form and the API agree. -/
theorem expiryAgrees_empty : ExpiryAgrees (submitted (filledForm .empty)) () .empty := by
  have hsubmit : handleSubmit (fun _ => none) ⟨false, none, []⟩ (filledForm .empty) =
      .ok (filledForm .empty).request := rfl
  exact (expiryAgrees_iff hsubmit rfl rfl (by decide)).mpr rfl

/-- The form submits noon of the 17th of July, with seconds missing, and the API rejects it. -/
theorem not_expiryAgrees_julyNoon :
    julyNoon.text = "2026-07-17T12:00".toList ∧
      handleSubmit (fun _ => none) ⟨false, none, []⟩ (filledForm (.dateTime julyNoon)) =
        .ok (filledForm (.dateTime julyNoon)).request ∧
      validateCreateBatch (submitted (filledForm (.dateTime julyNoon))).rt
        (filledForm (.dateTime julyNoon)).request.normalized = [] ∧
      ¬ExpiryAgrees (submitted (filledForm (.dateTime julyNoon))) () (.dateTime julyNoon) := by
  refine ⟨by decide, ?_, ?_, ?_⟩
  · rfl
  · decide
  · intro h
    have hrejected : (submitted (filledForm (.dateTime julyNoon))).result? [] () =
        some (.reply (respondError 400 "过期时间格式错误" [])) := by rfl
    obtain ⟨s, hs, hp⟩ := Start.result?_eq_some hrejected
    exact h.notRejected [] s hs hp

end CdkSystem
