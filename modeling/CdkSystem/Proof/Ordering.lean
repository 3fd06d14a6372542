import CdkSystem.Lib.Progress
import CdkSystem.Proof.Closed

/-!
# The order in which redemptions take their locks

`lockRank` ranks the locks as redemptions ask for them: idempotency keys, the code, the credential,
the redemption, and the outbox event. The keys of some calls rank lowest. `Redeem` and `BatchRedeem`
ask for their locks in this order (`redeem_orderly`, `batchRedeem_orderly`).

A batch holds its key while it asks for the locks of each of its codes in turn, and releases those
before the next code, so its locks never go down in rank while they are held together. The proof
follows the functions with the rules of `Orderly`, and what it needs of the queries is only which
locks they ask for.
-/

namespace CdkSystem

open RowLock Relational

variable {α β : Type}

/-- The rank of a lock; the keys that are marked rank lowest. -/
def lockRank (marked : String → Bool) : Lock → ℕ
  | .key k => if marked k then 0 else 1
  | .code _ => 2
  | .credential _ => 3
  | .redemption _ => 4
  | .redemptionEvent _ => 5
  | .outbox _ => 6
  | .outboxEvent _ => 7
  | .batch _ | .codeText _ => 8

/-- One slot holds these locks, and the other one what it holds. -/
def within (t : Slot) (outer : Option (List Lock)) (ls : List Lock) : Holding Slot Lock :=
  fun t' => if t' = t then some ls else outer

/-- The other slot. -/
def Slot.other : Slot → Slot
  | .tx => .idempotencyTx
  | .idempotencyTx => .tx

/-- The locks of a transaction and of the other slot have ranks below `r`. -/
def RanksBelow (marked : String → Bool) (outer : Option (List Lock)) (ls : List Lock) (r : ℕ) :
    Prop :=
  (∀ l ∈ ls, lockRank marked l < r) ∧ ∀ ls', outer = some ls' → ∀ l ∈ ls', lockRank marked l < r

namespace Go

/-- A function takes its locks in order, in a transaction of slot `t`. Whatever it returns, it
leaves the other slot as it was; a result satisfies `post` with what is held then. -/
def Orderly (marked : String → Bool) (n : ℕ) (t : Slot) (outer : Option (List Lock))
    (post : α → Holding Slot Lock → Prop) (held : Holding Slot Lock) (x : Go α) : Prop :=
  RowLock.Orderly postgres (lockRank marked) n
    (fun r held' => held' t.other = outer ∧ ∀ a, r = .ok a → post a held') held x.run

/-- A function takes its locks in order, and holds at its end what it holds at its beginning. -/
structure Keeps (marked : String → Bool) (n : ℕ) (held : Holding Slot Lock) (x : Go α) : Prop where
  orderly : RowLock.Orderly postgres (lockRank marked) n (fun _ held' => held' = held) held x.run

section Rules

variable {marked : String → Bool} {n : ℕ} {t : Slot} {outer : Option (List Lock)} {ls : List Lock}
  {post post' : α → Holding Slot Lock → Prop} {held : Holding Slot Lock}

/-- The other slot of a transaction. -/
theorem within_other : within t outer ls t.other = outer := by
  cases t <;> rfl

/-- A slot with more locks. -/
theorem update_within (ls' : List Lock) :
    Function.update (within t outer ls) t (some ls') = within t outer ls' := by
  funext t'
  by_cases h : t' = t
  · simp [within, h]
  · simp [within, h]

/-- What is held ranks below `r` if the locks of both slots do. -/
theorem within_below {r : ℕ} (h : RanksBelow marked outer ls r) :
    (within t outer ls).Below (lockRank marked) r := by
  intro t' ls' h'
  unfold within at h'
  split_ifs at h' with ht
  · exact Option.some.inj h' ▸ h.1
  · exact h.2 ls' h'

/-- What holds of a result may be weakened. -/
theorem Orderly.mono {x : Go α} (h : x.Orderly marked n t outer post held)
    (hpost : ∀ a held', post a held' → post' a held') : x.Orderly marked n t outer post' held :=
  RowLock.Orderly.mono h fun _ held' hr => ⟨hr.1, fun a ha => hpost a held' (hr.2 a ha)⟩

/-- One function after another. -/
theorem Orderly.bind {post : β → Holding Slot Lock → Prop} {x : Go α} {f : α → Go β}
    (h : x.Orderly marked n t outer
      (fun a held' => (f a).Orderly marked n t outer post held') held) :
    (x >>= f).Orderly marked n t outer post held := by
  unfold Orderly
  rw [ExceptT.run_bind]
  refine RowLock.Orderly.bind (RowLock.Orderly.mono h fun r held' hr => ?_)
  cases r with
  | ok a => exact hr.2 a rfl
  | error e => exact ⟨hr.1, fun a ha => nomatch ha⟩

/-- A returned result. -/
theorem orderly_pure {a : α} (hother : held t.other = outer) (ha : post a held) :
    (pure a : Go α).Orderly marked n t outer post held :=
  ⟨hother, fun _ h => Except.ok.inj h ▸ ha⟩

/-- A returned error. -/
theorem orderly_throw {e : GoError} (hother : held t.other = outer) :
    (throw e : Go α).Orderly marked n t outer post held :=
  ⟨hother, fun _ h => nomatch h⟩

/-- A query whose locks rank above those that are held, or are held. -/
theorem orderly_query {err : GoError} {q : Query} {post : q.Ans → Holding Slot Lock → Prop}
    (h : ∀ ctx c e, Query.exec ctx q c = some (.ok e) →
      (∀ l ∈ e.locks, l ∈ ls ∨ RanksBelow marked outer ls (lockRank marked l) ∧
        (lockRank marked l = 0 → (within t outer ls).connections ≤ n)) ∧
      post e.ans (within t outer (ls ++ e.locks))) :
    (Go.query err t q).Orderly marked n t outer post (within t outer ls) := by
  refine ⟨⟨ls, if_pos rfl, fun ctx c e he => ⟨fun l hl => ?_, ?_⟩⟩, ?_⟩
  · exact ((h ctx c e he).1 l hl).imp_right fun hl' => ⟨within_below hl'.1, hl'.2⟩
  · rw [update_within]
    exact ⟨within_other, fun a ha => Except.ok.inj ha ▸ (h ctx c e he).2⟩
  · exact ⟨within_other, fun _ h => nomatch h⟩

/-- A commit ends the transaction. -/
theorem orderly_commit {err : GoError} {post : Unit → Holding Slot Lock → Prop}
    (hpost : ∀ held', held' t.other = outer → post () held') :
    (Go.commit err t).Orderly marked n t outer post (within t outer ls) := by
  have hother : Function.update (within t outer ls) t none t.other = outer := by
    cases t <;> rfl
  exact ⟨⟨hother, fun _ _ => hpost _ hother⟩, ⟨hother, fun _ h => nomatch h⟩⟩

/-- A question that has an answer. -/
theorem orderly_env {e : Env} {post : e.Ans → Holding Slot Lock → Prop}
    (he : ∀ now, ∃ c, (Env.answer now e c).isSome = true)
    (hpost : ∀ a, post a (within t outer ls)) :
    (Go.env e).Orderly marked n t outer post (within t outer ls) :=
  ⟨he, fun a => ⟨within_other, fun _ h => Except.ok.inj h ▸ hpost a⟩⟩

/-- A transaction that is rolled back at the end leaves what was held before it began. -/
theorem orderly_deferRollback {err : GoError} {body : Go α} (htx : held t = none)
    (hbelow : held.Below (lockRank marked) 1) (hn : held.connections ≤ n)
    (h : body.Orderly marked n t (held t.other) (fun _ _ => True) (within t (held t.other) [])) :
    (Go.begin err t >>= fun _ => Go.deferRollback t body).Keeps marked n held := by
  have hbegin : Function.update held t (some []) = within t (held t.other) [] := by
    funext t'
    cases t <;> cases t' <;> rfl
  have hend : ∀ held' : Holding Slot Lock, held' t.other = held t.other →
      Function.update held' t none = held := by
    intro held' ho
    funext t'
    cases t <;> cases t' <;> first | exact htx.symm | exact ho
  refine ⟨?_⟩
  rw [ExceptT.run_bind]
  refine ⟨⟨htx, hbelow, hn⟩, ?_, rfl⟩
  rw [hbegin]
  change RowLock.Orderly postgres _ n _ _
    (body.run >>= fun r => Prog.op (.rollback t) fun _ => .ret r)
  refine RowLock.Orderly.bind (RowLock.Orderly.mono h fun r held' hr => ?_)
  exact hend held' hr.1

/-- A returned result keeps what is held. -/
theorem keeps_pure (a : α) : (pure a : Go α).Keeps marked n held := ⟨rfl⟩

/-- One function after another keeps what is held. -/
theorem Keeps.bind {x : Go α} {f : α → Go β} (h : x.Keeps marked n held)
    (hf : ∀ a, (f a).Keeps marked n held) : (x >>= f).Keeps marked n held := by
  refine ⟨?_⟩
  rw [ExceptT.run_bind]
  refine RowLock.Orderly.bind (h.orderly.mono fun r held' hr => ?_)
  rw [hr]
  cases r with
  | ok a => exact (hf a).orderly
  | error e => exact rfl

/-- A context around the error of a function keeps what is held. -/
theorem Keeps.withContext {context : String} {x : Go α} (h : x.Keeps marked n held) :
    (Go.withContext context x).Keeps marked n held :=
  ⟨RowLock.Orderly.bind (h.orderly.mono fun _ _ hr => hr)⟩

end Rules

end Go

open Go

/-! ## The functions of `Redeem` -/

section Redeem

variable {marked : String → Bool} {n : ℕ} {t : Slot} {outer : Option (List Lock)} {ls : List Lock}

/-- A lock above the rank of all that are held may be asked for. -/
theorem askable {l : Lock} {r : ℕ} (h : RanksBelow marked outer ls r) (hr : r ≤ lockRank marked l)
    (hpos : 0 < r) : RanksBelow marked outer ls (lockRank marked l) ∧
      (lockRank marked l = 0 → (within t outer ls).connections ≤ n) := by
  refine ⟨⟨fun l' hl' => (h.1 l' hl').trans_le hr, fun ls' h' l' hl' => ?_⟩, fun h0 => ?_⟩
  · exact (h.2 ls' h' l' hl').trans_le hr
  · omega

/-- The bound may be raised. -/
theorem RanksBelow.mono {r r' : ℕ} (h : RanksBelow marked outer ls r) (hr : r ≤ r') :
    RanksBelow marked outer ls r' :=
  ⟨fun l hl => (h.1 l hl).trans_le hr, fun ls' h' l hl => (h.2 ls' h' l hl).trans_le hr⟩

/-- With a lock more, the ranks stay below a bound that the lock's rank is below as well. -/
theorem RanksBelow.append {r r' : ℕ} {ls' : List Lock} (h : RanksBelow marked outer ls r)
    (hr : r ≤ r') (hls' : ∀ l ∈ ls', lockRank marked l < r') :
    RanksBelow marked outer (ls ++ ls') r' := by
  refine ⟨fun l hl => ?_, fun ls'' h' l hl => (h.2 ls'' h' l hl).trans_le hr⟩
  rcases List.mem_append.mp hl with hl | hl
  · exact (h.1 l hl).trans_le hr
  · exact hls' l hl

/-- The response is stored under a key that is held, or there is no key. -/
theorem storeIdempotencyResponse_orderly {key : String} {resp : RedeemResponse}
    (hkey : key = "" ∨ .key key ∈ ls) :
    (storeIdempotencyResponse key resp).Orderly marked n .tx outer
      (fun _ held' => ∃ ls', held' = within .tx outer ls') (within .tx outer ls) := by
  unfold storeIdempotencyResponse
  split_ifs with h
  · exact orderly_pure within_other ⟨ls, rfl⟩
  · refine orderly_query fun ctx c e he => ?_
    rcases exec_setIdempotencyResponse he with ⟨-, rfl⟩ | ⟨row, -, rfl⟩
    · exact ⟨by simp, _, rfl⟩
    · exact ⟨by simpa using Or.inl (hkey.resolve_left h), _, rfl⟩

/-- The key's row is claimed first of all locks. -/
theorem claimKey_orderly {create lock unmarshal key : String} {hash : List UInt8}
    {decode : Json → Option α} (hn : marked key = true → 1 ≤ n) :
    (claimKey t create lock unmarshal key hash decode).Orderly marked n t none
      (fun stored held' => held' t.other = none ∧
        (stored = none → held' = within t none [.key key])) (within t none []) := by
  -- The key's lock is asked for while nothing else is held, and only one connection.
  have hask : RanksBelow marked none [] (lockRank marked (.key key)) ∧
      (lockRank marked (.key key) = 0 → (within t none []).connections ≤ n) := by
    refine ⟨⟨by simp, by simp⟩, fun h0 => ?_⟩
    have hmarked : marked key = true := by
      by_contra hne
      simp [lockRank, hne] at h0
    have hone : (within t none []).connections = 1 := by
      cases t <;> rfl
    exact hone.le.trans (hn hmarked)
  unfold claimKey
  refine Orderly.bind (orderly_query fun ctx c e he => ?_)
  rcases exec_createIdempotencyKey he with ⟨row, -, rfl⟩ | ⟨-, rfl⟩
  · refine ⟨by simp, Orderly.bind (orderly_query fun ctx c e he => ?_)⟩
    rcases exec_lockIdempotencyKeyByKey he with ⟨-, rfl⟩ | ⟨row', -, rfl⟩
    · exact ⟨by simp, orderly_throw within_other⟩
    · refine ⟨by simpa using hask, ?_⟩
      dsimp only
      split_ifs
      · exact orderly_throw within_other
      · split
        · exact orderly_pure within_other ⟨within_other, fun _ => rfl⟩
        · split
          · exact orderly_throw within_other
          · exact orderly_pure within_other ⟨within_other, fun h => nomatch h⟩
  · exact ⟨by simpa using hask, orderly_pure within_other ⟨within_other, fun _ => rfl⟩⟩

/-- A refusal takes the lock of its redemption and commits. -/
theorem refuse_orderly {rt : Runtime} {req : RedeemRequest} {code userKey : String}
    {codeID batchID : Option ℕ} {resp : RedeemResponse} {commitErr : GoError}
    (hkey : req.idempotencyKey = "" ∨ .key req.idempotencyKey ∈ ls)
    (hls : RanksBelow marked outer ls 4) :
    (refuse rt req code userKey codeID batchID resp commitErr).Orderly marked n .tx outer
      (fun _ _ => True) (within .tx outer ls) := by
  unfold refuse recordFailure
  cases resp.result with
  | other text hother => exact orderly_throw within_other
  | known result =>
  dsimp only
  rw [bind_assoc]
  refine Orderly.bind (orderly_query fun ctx c e he => ?_)
  obtain ⟨-, -, -, rfl⟩ := exec_createRedemption he
  refine ⟨fun l hl => Or.inr ?_, ?_⟩
  · simp only [redemptionParams, CreateRedemptionParams.row, stringPtr, if_true, Option.toList_none,
      List.map_nil, List.mem_singleton] at hl
    subst hl
    exact askable hls le_rfl (by decide)
  · dsimp only
    generalize Lock.redemption _ :: _ = new
    have hkey' : req.idempotencyKey = "" ∨ Lock.key req.idempotencyKey ∈ ls ++ new :=
      hkey.imp_right (List.mem_append_left _)
    refine Orderly.bind ((storeIdempotencyResponse_orderly hkey').mono fun _ held' h => ?_)
    obtain ⟨ls', rfl⟩ := h
    exact Orderly.bind (orderly_commit fun held' ho => orderly_pure ho trivial)

/-- The changes of a success take the locks of the redemption and of its event. -/
theorem succeed_orderly {rt : Runtime} {req : RedeemRequest} {code userKey : String} {c : Code}
    {b : Batch} {credential : Option Credential}
    (hkey : req.idempotencyKey = "" ∨ .key req.idempotencyKey ∈ ls) (hcode : .code c.id ∈ ls)
    (hcred : ∀ x, credential = some x → .credential x.id ∈ ls)
    (hls : RanksBelow marked outer ls 4) :
    (succeed rt req code userKey c b credential).Orderly marked n .tx outer (fun _ _ => True)
      (within .tx outer ls) := by
  unfold succeed
  refine Orderly.bind (orderly_query fun ctx c' e he => ?_)
  rcases exec_incrementCodeUseCount he with ⟨rfl, -⟩ | ⟨x, -, -, -, rfl⟩
  · exact ⟨by simp, orderly_throw within_other⟩
  refine ⟨by simpa using Or.inl hcode, ?_⟩
  -- The code's lock is held already; nothing new ranks above the credential.
  have hls' : RanksBelow marked outer (ls ++ [.code c.id]) 4 := by
    refine hls.append le_rfl fun l hl => ?_
    rw [List.mem_singleton.mp hl]
    exact (by decide : 2 < 4)
  have hkey' : req.idempotencyKey = "" ∨ Lock.key req.idempotencyKey ∈ ls ++ [Lock.code c.id] :=
    hkey.imp_right (List.mem_append_left _)
  have hcred' : ∀ x, credential = some x → Lock.credential x.id ∈ ls ++ [Lock.code c.id] :=
    fun x hx => List.mem_append_left _ (hcred x hx)
  generalize ls ++ [Lock.code c.id] = ls₁ at hls' hkey' hcred'
  have hevent : (successEventID b).Orderly marked n .tx outer
      (fun _ held' => held' = within .tx outer ls₁) (within .tx outer ls₁) := by
    unfold successEventID
    split_ifs
    · have hhex : isHex 16 (String.ofList (List.replicate 32 'a')) = true := by decide +kernel
      refine orderly_env (fun now => ⟨⟨0, String.ofList (List.replicate 32 'a'), .unsent⟩, ?_⟩)
        fun _ => rfl
      rw [Env.answer, if_pos hhex, Option.isSome_some]
    · exact orderly_pure within_other rfl
  have hnow : (Go.env .now).Orderly marked n .tx outer
      (fun _ held' => held' = within .tx outer ls₁) (within .tx outer ls₁) :=
    orderly_env (fun now => ⟨⟨0, "", .unsent⟩, rfl⟩) fun _ => rfl
  refine Orderly.bind (hnow.mono fun redeemedAt held' hheld => ?_)
  rw [hheld]
  refine Orderly.bind (hevent.mono fun event held' hheld => ?_)
  rw [hheld]
  refine Orderly.bind (orderly_query fun ctx c' e he => ?_)
  obtain ⟨-, -, -, rfl⟩ := exec_createRedemption he
  refine ⟨fun l hl => Or.inr ?_, ?_⟩
  · simp only [List.mem_cons, List.mem_map] at hl
    rcases hl with rfl | ⟨event', -, rfl⟩
    · exact askable hls' le_rfl (by decide)
    · exact askable hls' (by decide : 4 ≤ 5) (by decide)
  dsimp only
  generalize hnew : Lock.redemption _ :: _ = new
  have hls₂ : RanksBelow marked outer (ls₁ ++ new) 6 := by
    refine hls'.append (by decide) fun l hl => ?_
    rw [← hnew] at hl
    simp only [List.mem_cons, List.mem_map] at hl
    rcases hl with rfl | ⟨event', -, rfl⟩
    · exact (by decide : 4 < 6)
    · exact (by decide : 5 < 6)
  have hkey₂ : req.idempotencyKey = "" ∨ Lock.key req.idempotencyKey ∈ ls₁ ++ new :=
    hkey'.imp_right (List.mem_append_left _)
  have hcred₂ : ∀ x, credential = some x → Lock.credential x.id ∈ ls₁ ++ new :=
    fun x hx => List.mem_append_left _ (hcred' x hx)
  generalize ls₁ ++ new = ls₂ at hls₂ hkey₂ hcred₂
  generalize (redemptionParams rt req code userKey (some c.id) (some c.batchId) b.payloadJson
    .success "兑换成功 🎉" (webhookStatus (b.webhookUrl ≠ "")) event).row ctx.seq.redemptions ctx.now = r
  -- What is left asks for the locks of the outbox event, and for locks that are held.
  have houtbox : (createOutboxEvent (b.webhookUrl ≠ "") event r.id).Orderly marked n .tx outer
      (fun _ held' => ∃ ls₃, held' = within .tx outer (ls₂ ++ ls₃)) (within .tx outer ls₂) := by
    unfold createOutboxEvent
    split_ifs
    · refine Orderly.bind (orderly_query fun ctx c' e he => ?_)
      obtain ⟨-, -, rfl⟩ := exec_createWebhookOutboxEvent he
      refine ⟨fun l hl => Or.inr ?_, orderly_pure within_other ⟨_, rfl⟩⟩
      simp only [newOutboxEvent, List.mem_cons, List.not_mem_nil, or_false] at hl
      rcases hl with rfl | rfl
      · exact askable hls₂ le_rfl (by decide)
      · exact askable hls₂ (by decide : 6 ≤ 7) (by decide)
    · exact orderly_pure within_other ⟨[], by rw [List.append_nil]⟩
  refine Orderly.bind (houtbox.mono fun _ held' hheld => ?_)
  obtain ⟨ls₃, rfl⟩ := hheld
  have hkey₃ : req.idempotencyKey = "" ∨ Lock.key req.idempotencyKey ∈ ls₂ ++ ls₃ :=
    hkey₂.imp_right (List.mem_append_left _)
  have hcred₃ : ∀ x, credential = some x → Lock.credential x.id ∈ ls₂ ++ ls₃ :=
    fun x hx => List.mem_append_left _ (hcred₂ x hx)
  generalize ls₂ ++ ls₃ = ls₄ at hkey₃ hcred₃
  have hmark : (markCredentialUsed credential r.id).Orderly marked n .tx outer
      (fun _ held' => ∃ ls₅, held' = within .tx outer (ls₄ ++ ls₅)) (within .tx outer ls₄) := by
    cases credential with
    | none => exact orderly_pure within_other ⟨[], by rw [List.append_nil]⟩
    | some x =>
      refine Orderly.bind (orderly_query fun ctx c' e he => ?_)
      rcases exec_markCredentialUsed he with ⟨-, rfl⟩ | ⟨y, -, rfl⟩
      · exact ⟨by simp, orderly_throw within_other⟩
      · exact ⟨by simpa using Or.inl (hcred₃ x rfl), orderly_pure within_other ⟨_, rfl⟩⟩
  refine Orderly.bind (hmark.mono fun _ held' hheld => ?_)
  obtain ⟨ls₅, rfl⟩ := hheld
  have hkey₅ : req.idempotencyKey = "" ∨ Lock.key req.idempotencyKey ∈ ls₄ ++ ls₅ :=
    hkey₃.imp_right (List.mem_append_left _)
  refine Orderly.bind ((storeIdempotencyResponse_orderly hkey₅).mono fun _ held' h => ?_)
  obtain ⟨ls₆, rfl⟩ := h
  exact Orderly.bind (orderly_commit fun held' ho => orderly_pure ho trivial)

/-- The lookup locks the code that it finds. -/
theorem getCodeByCode_orderly {code : String} (hls : RanksBelow marked outer ls 2) :
    (getCodeByCode code).Orderly marked n .tx outer
      (fun found held' => match found with
        | none => held' = within .tx outer ls
        | some cb => held' = within .tx outer (ls ++ [.code cb.1.id])) (within .tx outer ls) := by
  unfold getCodeByCode
  refine Orderly.bind (orderly_query fun ctx c e he => ?_)
  rcases exec_getCodeByCode he with ⟨rfl, -⟩ | ⟨x, b, -, -, -, rfl⟩
  · refine ⟨by simp, orderly_pure within_other ?_⟩
    simp
  · refine ⟨by simp, ?_⟩
    rw [List.append_nil]
    refine Orderly.bind (orderly_query fun ctx c e he => ?_)
    rcases exec_getCodeByCodeForUpdate he with ⟨-, rfl⟩ | ⟨y, hy, rfl⟩
    · refine ⟨by simp, orderly_pure within_other ?_⟩
      simp
    · have hid : y.id = x.id := (Table.get?_eq_some_iff.mp hy).2
      refine ⟨fun l hl => Or.inr ?_, orderly_pure within_other ?_⟩
      · rw [List.mem_singleton.mp hl]
        exact askable hls le_rfl (by decide)
      · simp [hid]

/-- A code is redeemed with the locks of the code and of the credential. -/
theorem redeemCode_orderly {rt : Runtime} {req : RedeemRequest} {code userKey : String}
    (hkey : req.idempotencyKey = "" ∨ .key req.idempotencyKey ∈ ls)
    (hls : RanksBelow marked outer ls 2) :
    (redeemCode rt req code userKey).Orderly marked n .tx outer (fun _ _ => True)
      (within .tx outer ls) := by
  unfold redeemCode
  refine Orderly.bind ((getCodeByCode_orderly hls).mono fun found held' hheld => ?_)
  cases found with
  | none =>
    subst hheld
    exact refuse_orderly hkey (hls.mono (by decide))
  | some cb =>
    obtain ⟨c, b⟩ := cb
    subst hheld
    have hls₁ : RanksBelow marked outer (ls ++ [.code c.id]) 3 := by
      refine hls.append (by decide) fun l hl => ?_
      rw [List.mem_singleton.mp hl]
      exact (by decide : 2 < 3)
    have hkey₁ : req.idempotencyKey = "" ∨ Lock.key req.idempotencyKey ∈ ls ++ [Lock.code c.id] :=
      hkey.imp_right (List.mem_append_left _)
    have hcode : Lock.code c.id ∈ ls ++ [Lock.code c.id] := by simp
    dsimp only
    generalize ls ++ [Lock.code c.id] = ls₁ at hls₁ hkey₁ hcode
    have hnow : (Go.env .now).Orderly marked n .tx outer
        (fun _ held' => held' = within .tx outer ls₁) (within .tx outer ls₁) :=
      orderly_env (fun now => ⟨⟨0, "", .unsent⟩, rfl⟩) fun _ => rfl
    refine Orderly.bind (hnow.mono fun now held' hheld => ?_)
    rw [hheld]
    cases checkCodeState now c b with
    | some resp => exact refuse_orderly hkey₁ (hls₁.mono (by decide))
    | none =>
      dsimp only
      unfold redeemAvailable
      split_ifs
      · refine Orderly.bind (orderly_query fun ctx c' e he => ?_)
        rcases exec_getUnusedCredential he with ⟨rfl, -⟩ | ⟨x, -, -, rfl⟩
        · refine ⟨by simp, ?_⟩
          rw [List.append_nil]
          exact refuse_orderly hkey₁ (hls₁.mono (by decide))
        · refine ⟨fun l hl => Or.inr ?_, ?_⟩
          · rw [List.mem_singleton.mp hl]
            exact askable hls₁ le_rfl (by decide)
          · refine succeed_orderly (hkey₁.imp_right (List.mem_append_left _))
              (List.mem_append_left _ hcode) (fun y hy => ?_)
              (hls₁.append (by decide) fun l hl => ?_)
            · simp [← Option.some.inj hy]
            · rw [List.mem_singleton.mp hl]
              exact (by decide : 3 < 4)
      · exact succeed_orderly hkey₁ hcode (fun y hy => nomatch hy) (hls₁.mono (by decide))

/-- `Redeem` takes its locks in order: with a key of its own when nothing is held, and without one
also when the key of a batch is held. -/
theorem redeem_orderly {rt : Runtime} {req : RedeemRequest} {held : Holding Slot Lock}
    (htx : held .tx = none) (hbelow : held.Below (lockRank marked) 1) (hn : held.connections ≤ n)
    (hkey : req.idempotencyKey ≠ "" →
      held .idempotencyTx = none ∧ (marked req.idempotencyKey = true → 1 ≤ n)) :
    (redeem rt req).Keeps marked n held := by
  unfold redeem
  cases checkInput req.trimmed (normalizeCode req.code) with
  | some resp => exact keeps_pure resp
  | none =>
    refine orderly_deferRollback htx hbelow hn ?_
    have houter : ∀ ls', held .idempotencyTx = some ls' → ∀ l ∈ ls', lockRank marked l < 1 :=
      hbelow .idempotencyTx
    unfold redeemTx
    change Go.Orderly marked n .tx (held .idempotencyTx) _ (within .tx (held .idempotencyTx) []) _
    -- Without a key the code is the first lock, behind those of the outer transaction.
    by_cases h : req.trimmed.idempotencyKey = ""
    · rw [if_pos h]
      refine redeemCode_orderly (Or.inl h) ⟨by simp, fun ls' h' l hl => ?_⟩
      exact (houter ls' h' l hl).trans (by decide)
    · rw [if_neg h]
      -- With a key there is no outer transaction, and the key is the first lock.
      obtain ⟨hnone, hn'⟩ := hkey h
      rw [hnone]
      refine Orderly.bind ((claimKey_orderly hn').mono fun stored held' hstored => ?_)
      cases stored with
      | some resp => exact orderly_pure hstored.1 trivial
      | none =>
        rw [hstored.2 rfl]
        refine redeemCode_orderly (Or.inr (List.mem_singleton_self _)) ⟨fun l hl => ?_, by simp⟩
        rw [List.mem_singleton.mp hl]
        unfold lockRank
        dsimp only
        split_ifs <;> decide

end Redeem

/-! ## The functions of `BatchRedeem` -/

section Batch

variable {marked : String → Bool} {n : ℕ} {rt : Runtime} {req : BatchRedeemRequest}
  {held : Holding Slot Lock}

/-- One code of a batch keeps what is held. -/
theorem redeemItem_keeps (htx : held .tx = none) (hbelow : held.Below (lockRank marked) 1)
    (hn : held.connections ≤ n) (seen : List String) (code : String) :
    (redeemItem rt req seen code).Keeps marked n held := by
  unfold redeemItem
  cases itemError seen (normalizeCode code) with
  | some message => exact keeps_pure _
  | none =>
    have hredeem : (redeem rt (req.item code)).Keeps marked n held :=
      redeem_orderly htx hbelow hn fun hne => absurd rfl hne
    exact hredeem.withContext.bind fun resp => keeps_pure _

/-- The loop over the codes keeps what is held. -/
theorem redeemCodes_keeps (htx : held .tx = none) (hbelow : held.Below (lockRank marked) 1)
    (hn : held.connections ≤ n) (codes seen : List String) (resp : BatchRedeemResponse) :
    (redeemCodes rt req seen resp codes).Keeps marked n held := by
  induction codes generalizing seen resp with
  | nil => exact keeps_pure resp
  | cons code codes ih =>
    have hitem : (redeemItem rt req seen code).Keeps marked n held :=
      redeemItem_keeps htx hbelow hn seen code
    rw [redeemCodes]
    exact hitem.bind fun r => ih r.1 (resp.add r.2)

/-- The key's transaction takes the key's lock first and redeems the codes while it holds it. -/
theorem batchRedeemTx_orderly (hmarked : marked req.idempotencyKey = true) (hn : 1 ≤ n) :
    (batchRedeemTx rt req).Orderly marked n .idempotencyTx none (fun _ _ => True)
      (within .idempotencyTx none []) := by
  -- The key of the batch ranks below everything that its codes need.
  have hheld : (within .idempotencyTx none [Lock.key req.idempotencyKey]).Below
      (lockRank marked) 1 := by
    refine within_below ⟨fun l hl => ?_, by simp⟩
    rw [List.mem_singleton.mp hl]
    simp [lockRank, hmarked]
  have hcodes : (redeemCodes rt req [] req.start req.codes).Keeps marked n
      (within .idempotencyTx none [.key req.idempotencyKey]) :=
    redeemCodes_keeps rfl hheld hn req.codes [] req.start
  unfold batchRedeemTx
  generalize redeemCodes rt req [] req.start req.codes = x at hcodes ⊢
  refine Orderly.bind ((claimKey_orderly fun _ => hn).mono fun stored held' hstored => ?_)
  cases stored with
  | some resp => exact orderly_pure hstored.1 trivial
  | none =>
    rw [hstored.2 rfl]
    have hx : x.Orderly marked n .idempotencyTx none
        (fun _ held' => held' = within .idempotencyTx none [.key req.idempotencyKey])
        (within .idempotencyTx none [.key req.idempotencyKey]) :=
      hcodes.orderly.mono fun r held' hr => ⟨hr ▸ within_other, fun _ _ => hr⟩
    -- When the codes are done, the outer transaction holds its key and nothing else.
    refine Orderly.bind (hx.mono fun resp held' hheld' => ?_)
    rw [hheld']
    unfold storeBatchIdempotencyResponse
    refine Orderly.bind (orderly_query fun ctx c e he => ?_)
    rcases exec_setIdempotencyResponse he with ⟨-, rfl⟩ | ⟨row, -, rfl⟩
    · exact ⟨by simp, Orderly.bind (orderly_commit fun held' ho => orderly_pure ho trivial)⟩
    · refine ⟨fun l hl => Or.inl hl, ?_⟩
      exact Orderly.bind (orderly_commit fun held' ho => orderly_pure ho trivial)

/-- `BatchRedeem` takes its locks in order; its key is one of the lowest locks. -/
theorem batchRedeem_orderly
    (hkey : req.idempotencyKey ≠ "" → marked req.idempotencyKey = true ∧ 1 ≤ n) :
    (batchRedeem rt req).Keeps marked n .nothing := by
  have hbelow : (Holding.nothing : Holding Slot Lock).Below (lockRank marked) 1 :=
    fun t ls h => nomatch h
  have hn : ∀ m, (Holding.nothing : Holding Slot Lock).connections ≤ m := fun m => by
    simp [Holding.nothing_connections]
  unfold batchRedeem
  cases checkBatchInput req.trimmed with
  | some resp => exact keeps_pure resp
  | none =>
    dsimp only
    by_cases h : req.idempotencyKey = ""
    · rw [if_pos h]
      exact redeemCodes_keeps rfl hbelow (hn n) _ _ _
    · rw [if_neg h]
      obtain ⟨hmarked, hone⟩ := hkey h
      have htx : (batchRedeemTx rt req.trimmed).Orderly marked n .idempotencyTx none
          (fun _ _ => True) (within .idempotencyTx none []) := batchRedeemTx_orderly hmarked hone
      generalize batchRedeemTx rt req.trimmed = x at htx ⊢
      exact orderly_deferRollback rfl hbelow (hn n) htx

end Batch

end CdkSystem
