import CdkSystem.Proof.Evolution
import CdkSystem.Spec

/-!
# What transitions preserve

A transition is an evolution (`Transition.evolves`), keeps the stored responses of keys
(`Transition.keysKept`), marks credentials used only once (`Transition.credentialsKept`), and keeps
the constraints of the schema (`Transition.integrity`). Hence so does every history.

For a redemption, `tables_refused` and `tables_succeeded` say what each table is afterwards.

Each of these is a case analysis over the transitions, in which a transition's changes are looked up
table by table. They are proved for one transition, between the tables before and after a commit,
and the induction over the commits of a history is made once.
-/

namespace CdkSystem

open RowLock Relational

/-! ## The tables after a redemption -/

/-- The table of keys after a key was claimed and its response stored, if there is a key. -/
def keyed (t : Table IdempotencyKey) (key : String) (requestHash : List UInt8) (body : Json) :
    Table IdempotencyKey :=
  if key = "" then t
  else
    (if (t.get? key).isSome then t else t.insert ⟨key, requestHash, none⟩).modify key
      (IdempotencyKey.setResponse body) (IdempotencyKey.key_setResponse body)

/-- The table of credentials after a success. -/
def Grant.credentialsAfter (g : Grant) (t : Table Credential) : Table Credential :=
  match g.credential with
  | none => t
  | some x =>
    t.modify x.id (Credential.markUsed g.redemption.id) (Credential.key_markUsed g.redemption.id)

/-- The outbox after a success. -/
def Grant.outboxAfter (g : Grant) (t : Table WebhookOutbox) : Table WebhookOutbox :=
  if g.batch.webhookUrl = "" then t else t.insert g.outbox

/-- The tables after a business failure. -/
theorem tables_refused (T : Tables) (key : String) (hash : List UInt8) (r : Redemption)
    (body : Json) :
    postgres.applyAll T (openKey T key hash ++ [.createRedemption r] ++ closeKey key body) =
      { T with
        keys := keyed T.keys key hash body
        redemptions := T.redemptions.insert r } := by
  unfold openKey closeKey keyed
  by_cases hk : key = ""
  · simp [hk, Dbms.applyAll, postgres, Tables.apply]
  · cases hrow : T.keys.get? key with
    | none => simp [hk, Dbms.applyAll, postgres, Tables.apply]
    | some row => simp [hk, Dbms.applyAll, postgres, Tables.apply]

/-- The tables after a success. -/
theorem tables_succeeded (T : Tables) (key : String) (hash : List UInt8) (g : Grant)
    (body : Json) :
    postgres.applyAll T (openKey T key hash ++ g.writes ++ closeKey key body) =
      { T with
        codes := T.codes.modify g.code.id Code.incrementUseCount Code.key_incrementUseCount
        credentials := g.credentialsAfter T.credentials
        keys := keyed T.keys key hash body
        redemptions := T.redemptions.insert g.redemption
        outbox := g.outboxAfter T.outbox } := by
  have hopen : postgres.applyAll T (openKey T key hash) =
      { T with
        keys :=
          if key = "" ∨ (T.keys.get? key).isSome then T.keys
          else T.keys.insert ⟨key, hash, none⟩ } := by
    unfold openKey
    split_ifs <;> rfl
  have hwrites : ∀ T' : Tables, postgres.applyAll T' g.writes =
      { T' with
        codes := T'.codes.modify g.code.id Code.incrementUseCount Code.key_incrementUseCount
        credentials := g.credentialsAfter T'.credentials
        redemptions := T'.redemptions.insert g.redemption
        outbox := g.outboxAfter T'.outbox } := by
    intro T'
    unfold Grant.writes Grant.outboxWrites Grant.credentialWrites Grant.credentialsAfter
      Grant.outboxAfter
    cases g.credential <;> split_ifs <;> rfl
  rw [Dbms.applyAll_append, Dbms.applyAll_append, hopen, hwrites]
  -- What is left is the key's row, which is there already or is inserted and then updated.
  unfold closeKey keyed
  by_cases hk : key = ""
  · simp [hk]
  · cases hrow : T.keys.get? key with
    | none => simp [hk, Dbms.applyAll, postgres, Tables.apply]
    | some row => simp [hk, Dbms.applyAll, postgres, Tables.apply]

/-- The tables after the response of a batch request was stored. -/
theorem tables_stored (T : Tables) (key : String) (hash : List UInt8) (body : Json) :
    postgres.applyAll T (openKey T key hash ++ closeKey key body) =
      { T with keys := keyed T.keys key hash body } := by
  unfold openKey closeKey keyed
  by_cases hk : key = ""
  · simp [hk, Dbms.applyAll]
  · cases hrow : T.keys.get? key with
    | none => simp [hk, Dbms.applyAll, postgres, Tables.apply]
    | some row => simp [hk, Dbms.applyAll, postgres, Tables.apply]

/-- Other keys keep their rows. -/
theorem get?_keyed_of_ne {t : Table IdempotencyKey} {key k : String} {hash : List UInt8}
    {body : Json} (h : key = "" ∨ k ≠ key) : (keyed t key hash body).get? k = t.get? k := by
  unfold keyed
  by_cases hk : key = ""
  · rw [if_pos hk]
  · have hne : k ≠ key := h.resolve_left hk
    rw [if_neg hk, Table.get?_modify, if_neg hne]
    split_ifs
    · rfl
    · exact Table.get?_insert_of_ne hne.symm

/-- The key has its response. -/
theorem get?_keyed_self {T : Tables} {key : String} {hash : List UInt8} {body : Json}
    (hk : key ≠ "") (hfree : KeyFree T key hash) :
    (keyed T.keys key hash body).get? key = some ⟨key, hash, some body⟩ := by
  unfold keyed
  rw [if_neg hk, Table.get?_modify_self]
  cases hrow : T.keys.get? key with
  | none =>
    have hnone : T.keys.get? (Relational.key (⟨key, hash, none⟩ : IdempotencyKey)) = none := hrow
    have hinsert : (T.keys.insert ⟨key, hash, none⟩).get? key = some ⟨key, hash, none⟩ :=
      Table.get?_insert_self hnone
    simp only [Option.isSome_none, Bool.false_eq_true, if_false, hinsert]
    rfl
  | some row =>
    have hrowkey : row.key = key := Table.key_of_get? hrow
    obtain ⟨hh, -⟩ := hfree hk row hrow
    simp only [Option.isSome_some, if_true, hrow, Option.map_some, IdempotencyKey.setResponse]
    rw [← hrowkey, ← hh]

/-! ## Evolution -/

/-- A part of the tables that no change of a list touches is the same after them. -/
theorem applyAll_same {α : Type} (f : Tables → α) {ws : List Write}
    (h : ∀ w ∈ ws, ∀ T, f (T.apply w) = f T) (T : Tables) : f (postgres.applyAll T ws) = f T := by
  induction ws generalizing T with
  | nil => rfl
  | cons w ws ih =>
    rw [Dbms.applyAll_cons, ih fun w' hw' => h w' (by simp [hw'])]
    exact h w (by simp) T

/-- A part of the tables that no change of a kind touches is the same after any number of them. -/
theorem applyAll_map_same {α β : Type} (f : Tables → α) {w : β → Write}
    (h : ∀ b T, f (T.apply (w b)) = f T) (bs : List β) (T : Tables) :
    f (postgres.applyAll T (bs.map w)) = f T := by
  refine applyAll_same f (fun w' hw' T' => ?_) T
  obtain ⟨b, -, rfl⟩ := List.mem_map.mp hw'
  exact h b T'

/-- An import leaves the other credentials as they are. -/
theorem get?_imported {cs : List Credential} {id : ℕ} (h : ∀ c ∈ cs, c.id ≠ id) (T : Tables) :
    (postgres.applyAll T (cs.map .createCredential)).credentials.get? id =
      T.credentials.get? id := by
  refine applyAll_same (fun T => T.credentials.get? id) (fun w hw T' => ?_) T
  obtain ⟨c, hc, rfl⟩ := List.mem_map.mp hw
  exact Table.get?_insert_of_ne (h c hc)

/-- The credentials that are left by a deletion were there before. -/
theorem get?_of_get?_deleted {ids : List ℕ} {T : Tables} {id : ℕ} {c : Credential}
    (h : (postgres.applyAll T (ids.map .deleteCredential)).credentials.get? id = some c) :
    T.credentials.get? id = some c := by
  induction ids generalizing T with
  | nil => exact h
  | cons id' ids ih =>
    have hc : (T.credentials.erase id').get? id = some c := ih h
    by_cases hid : id = id'
    · rw [hid, Table.get?_erase_self] at hc
      cases hc
    · rwa [Table.get?_erase_of_ne hid] at hc

/-- The stored responses of keys are kept. -/
def KeysKept (T T' : Tables) : Prop :=
  ∀ k row, T.keys.get? k = some row → row.responseBody.isSome = true → T'.keys.get? k = some row

/-- A later version of a credential: it has been handed out at most once. -/
def Credential.Later (c c' : Credential) : Prop :=
  (∃ used redemption, c' = { c with used := used, redemptionId := redemption }) ∧
    (c.used = true → c' = c)

/-- Credentials with an `id` below `first` do not appear, and those that are there are later
versions. -/
def CredentialsKept (first : ℕ) (T T' : Tables) : Prop :=
  ∀ id c', id < first → T'.credentials.get? id = some c' →
    ∃ c, T.credentials.get? id = some c ∧ c.Later c'

/-- A credential is a later version of itself. -/
theorem Credential.Later.refl (c : Credential) : c.Later c := ⟨⟨_, _, rfl⟩, fun _ => rfl⟩

/-- Later versions of credentials in two steps. -/
theorem Credential.Later.trans {c c' c'' : Credential} (h : c.Later c') (h' : c'.Later c'') :
    c.Later c'' := by
  obtain ⟨⟨u, r, rfl⟩, hused⟩ := h
  obtain ⟨⟨u', r', rfl⟩, hused'⟩ := h'
  refine ⟨⟨u', r', rfl⟩, fun hc => ?_⟩
  have h1 := hused hc
  have h2 := hused' (by rw [h1]; exact hc)
  rw [h2, h1]

/-- A used credential stays used. -/
theorem Credential.Later.used {c c' : Credential} (h : c.Later c') (hc : c.used = true) :
    c'.used = true := by
  rw [h.2 hc]
  exact hc

/-- Nothing changing keeps the credentials. -/
theorem CredentialsKept.of_eq {first : ℕ} {T T' : Tables} (h : T'.credentials = T.credentials) :
    CredentialsKept first T T' :=
  fun _ c' _ hc' => ⟨c', h ▸ hc', .refl c'⟩

/-- Credentials are kept in two steps. -/
theorem CredentialsKept.trans {first : ℕ} {T T' T'' : Tables} (h : CredentialsKept first T T')
    (h' : CredentialsKept first T' T'') : CredentialsKept first T T'' := by
  intro id c'' hid hc''
  obtain ⟨c', hc', hl'⟩ := h' id c'' hid hc''
  obtain ⟨c, hc, hl⟩ := h id c' hid hc'
  exact ⟨c, hc, hl.trans hl'⟩

/-- Nothing changing keeps the responses. -/
theorem KeysKept.of_eq {T T' : Tables} (h : T'.keys = T.keys) : KeysKept T T' :=
  fun _ _ hrow _ => h ▸ hrow

/-- Responses are kept in two steps. -/
theorem KeysKept.trans {T T' T'' : Tables} (h : KeysKept T T') (h' : KeysKept T' T'') :
    KeysKept T T'' :=
  fun k row hrow hbody => h' k row (h k row hrow hbody) hbody

/-- Storing a response for a key that waits for one keeps the responses of all keys. -/
theorem keysKept_keyed {T T' : Tables} {key : String} {hash : List UInt8} {body : Json}
    (hfree : KeyFree T key hash) (h : T'.keys = keyed T.keys key hash body) : KeysKept T T' := by
  intro k row hrow hbody
  rw [h]
  by_cases hk : key = "" ∨ k ≠ key
  · rw [get?_keyed_of_ne hk]
    exact hrow
  · rw [not_or, not_not] at hk
    obtain ⟨hk, rfl⟩ := hk
    rw [(hfree hk row hrow).2] at hbody
    cases hbody

variable {ι : Type} {start : Start ι} {log : List (Commit ι Tables)} {e : Commit ι Tables}
  {call : Call}

/-- A redemption is a list of changes. -/
theorem Redeemed.writes {rt : Runtime} {clock : Time} {past : Tables → Prop} {req : RedeemRequest}
    {resp : RedeemResponse} (h : Redeemed rt clock past req e resp) :
    ∃ ws, e.after = postgres.applyAll e.before ws := by
  cases h with
  | refused reason known new hcreated free after => exact ⟨_, after⟩
  | succeeded inOrder response free after => exact ⟨_, after⟩

/-- A redemption finds its key without a row, or with a row that waits for its response. -/
theorem Redeemed.free {rt : Runtime} {clock : Time} {past : Tables → Prop} {req : RedeemRequest}
    {resp : RedeemResponse} (h : Redeemed rt clock past req e resp) :
    KeyFree e.before req.idempotencyKey (hashRequest rt req) := by
  cases h with
  | refused reason known new hcreated free after => exact free
  | succeeded inOrder response free after => exact free

/-- A redemption keeps the stored responses. -/
theorem Redeemed.keysKept {rt : Runtime} {clock : Time} {past : Tables → Prop}
    {req : RedeemRequest} {resp : RedeemResponse} (h : Redeemed rt clock past req e resp) :
    KeysKept e.before e.after := by
  cases h with
  | refused reason known new hcreated free after =>
    exact keysKept_keyed free (by rw [after, tables_refused])
  | succeeded inOrder response free after =>
    exact keysKept_keyed free (by rw [after, tables_succeeded])

/-- The credential that a success hands out was not used before. -/
theorem Grant.credentialsKept {g : Grant} {T T' : Tables} (first : ℕ) (h : g.Assigns T)
    (hT' : T'.credentials = g.credentialsAfter T.credentials) : CredentialsKept first T T' := by
  unfold Grant.Assigns at h
  unfold Grant.credentialsAfter at hT'
  cases hx : g.credential with
  | none =>
    rw [hx] at hT'
    exact .of_eq hT'
  | some x =>
    rw [hx] at h hT'
    obtain ⟨-, hrow, havail⟩ := h
    intro id c' _ hc'
    rw [hT', Table.get?_modify] at hc'
    split_ifs at hc' with hid
    · rw [hid]
      rw [hrow, Option.map_some, Option.some.injEq] at hc'
      refine ⟨x, hrow, ⟨true, some g.redemption.id, hc'.symm⟩, fun hused => ?_⟩
      simp [Credential.available, hused] at havail
    · exact ⟨c', hc', .refl c'⟩

/-- A redemption hands out at most a credential that was not used before. -/
theorem Redeemed.credentialsKept {rt : Runtime} {clock : Time} {past : Tables → Prop}
    {req : RedeemRequest} {resp : RedeemResponse} (h : Redeemed rt clock past req e resp)
    (first : ℕ) : CredentialsKept first e.before e.after := by
  cases h with
  | refused reason known new hcreated free after => exact .of_eq (by rw [after, tables_refused])
  | succeeded inOrder response free after =>
    exact Grant.credentialsKept first inOrder.assigns (by rw [after, tables_succeeded])

section Transitions

variable [DecidableEq ι]

/-- A transition is a list of changes. -/
theorem Transition.writes (h : Transition start log e call) :
    ∃ ws, e.after = postgres.applyAll e.before ws := by
  cases h with
  | idle after => exact ⟨[], after⟩
  | redeem h => exact h.writes
  | batchItem hcode h => exact h.writes
  | batchStored hkey tally all free after => exact ⟨_, after⟩
  | createdBatch h => exact ⟨_, h.after⟩
  | toggledBatch after => exact ⟨[.toggleBatchStatus _], after⟩
  | toggledCode after => exact ⟨[.toggleCodeStatus _], after⟩
  | resent row success finished redemptionEvent new outboxEvent outbox after => exact ⟨_, after⟩
  | imported new after => exact ⟨_, after⟩
  | deleted ids hcall after => exact ⟨_, after⟩
  | leased h =>
    obtain ⟨o, token, expires, -, -, -, after⟩ := h
    exact ⟨[.leaseWebhookOutboxEvent _ _ _], after⟩
  | outboxReported report lease row token leased finishes retries after =>
    exact ⟨[.updateWebhookOutbox _ _], after⟩
  | redemptionReported report row event redemption current reports agrees after =>
    exact ⟨[.updateRedemptionWebhookStatus _ _], after⟩

/-- A transition is an evolution. -/
theorem Transition.evolves (h : Transition start log e call) : Evolves e.before e.after := by
  obtain ⟨ws, hws⟩ := h.writes
  rw [hws]
  exact Evolves.applyAll _ ws

/-- A transition keeps the stored responses. -/
theorem Transition.keysKept (h : Transition start log e call) : KeysKept e.before e.after := by
  cases h with
  | redeem h => exact h.keysKept
  | batchItem hcode h => exact h.keysKept
  | batchStored hkey tally all free after =>
    exact keysKept_keyed free (by rw [after, tables_stored])
  | idle after => exact .of_eq (by rw [after])
  | leased h =>
    obtain ⟨o, token, expires, -, -, -, after⟩ := h
    exact .of_eq (by rw [after]; rfl)
  | toggledBatch after | toggledCode after
  | outboxReported report lease row token leased finishes retries after
  | redemptionReported report row event redemption current reports agrees after
  | resent row success finished redemptionEvent new outboxEvent outbox after =>
    exact .of_eq (by rw [after]; rfl)
  | createdBatch h =>
    refine .of_eq ?_
    rw [h.after, Dbms.applyAll_cons, applyAll_map_same Tables.keys fun _ _ => rfl]
    rfl
  | imported new after => exact .of_eq (by rw [after, applyAll_map_same Tables.keys fun _ _ => rfl])
  | deleted ids hcall after =>
    exact .of_eq (by rw [after, applyAll_map_same Tables.keys fun _ _ => rfl])

/-- An event of the outbox that is over: delivered or given up, and not leased. -/
def WebhookOutbox.Over (o : WebhookOutbox) : Prop :=
  (o.status = .success ∨ o.status = .deadLetter) ∧ o.leaseToken = none

/-- The events of the outbox that are over are kept. -/
def OverKept (T T' : Tables) : Prop :=
  ∀ id o, T.outbox.get? id = some o → o.Over → T'.outbox.get? id = some o

omit [DecidableEq ι] in
/-- Nothing changing keeps the events that are over. -/
theorem OverKept.of_eq {T T' : Tables} (h : T'.outbox = T.outbox) : OverKept T T' :=
  fun _ _ ho _ => h ▸ ho

omit [DecidableEq ι] in
/-- Events that are over are kept in two steps. -/
theorem OverKept.trans {T T' T'' : Tables} (h : OverKept T T') (h' : OverKept T' T'') :
    OverKept T T'' :=
  fun id o ho hover => h' id o (h id o ho hover) hover

omit [DecidableEq ι] in
/-- A new event leaves those that are over. -/
theorem OverKept.insert {T T' : Tables} {o : WebhookOutbox} (h : T'.outbox = T.outbox.insert o) :
    OverKept T T' :=
  fun _ _ ho _ => h ▸ Table.get?_insert_of_get? ho

omit [DecidableEq ι] in
/-- A redemption keeps the events that are over. -/
theorem Redeemed.overKept {rt : Runtime} {clock : Time} {past : Tables → Prop} {req : RedeemRequest}
    {resp : RedeemResponse} (h : Redeemed rt clock past req e resp) :
    OverKept e.before e.after := by
  cases h with
  | refused reason known new hcreated free after => exact .of_eq (by rw [after, tables_refused])
  | @succeeded g redeemedAt resp inOrder response free after =>
    have houtbox : e.after.outbox = g.outboxAfter e.before.outbox := by
      rw [after, tables_succeeded]
    unfold Grant.outboxAfter at houtbox
    split_ifs at houtbox
    · exact .of_eq houtbox
    · exact .insert houtbox

omit [DecidableEq ι] in
/-- A change to one event that is not over keeps those that are. -/
theorem OverKept.modify {T T' : Tables} {id : ℕ} {o : WebhookOutbox}
    {f : WebhookOutbox → WebhookOutbox} (hf : ∀ r, key (f r) = key r)
    (ho : T.outbox.get? id = some o) (hover : ¬ o.Over)
    (h : T'.outbox = T.outbox.modify id f hf) : OverKept T T' := by
  intro id' o' ho' hover'
  rw [h, Table.get?_modify]
  split_ifs with hid
  · rw [hid, ho, Option.some.injEq] at ho'
    exact absurd (ho' ▸ hover') hover
  · exact ho'

/-- A transition keeps the events that are over. -/
theorem Transition.overKept (h : Transition start log e call) : OverKept e.before e.after := by
  cases h with
  | redeem h => exact h.overKept
  | batchItem hcode h => exact h.overKept
  | batchStored hkey tally all free after => exact .of_eq (by rw [after, tables_stored])
  | idle after => exact .of_eq (by rw [after])
  | toggledBatch after | toggledCode after
  | redemptionReported report row event redemption current reports agrees after =>
    exact .of_eq (by rw [after]; rfl)
  | resent row success finished redemptionEvent new outboxEvent outbox after =>
    exact .insert (by rw [after]; rfl)
  | createdBatch h =>
    refine .of_eq ?_
    rw [h.after, Dbms.applyAll_cons, applyAll_map_same Tables.outbox fun _ _ => rfl]
    rfl
  | imported new after =>
    exact .of_eq (by rw [after, applyAll_map_same Tables.outbox fun _ _ => rfl])
  | deleted ids hcall after =>
    exact .of_eq (by rw [after, applyAll_map_same Tables.outbox fun _ _ => rfl])
  -- An event that is over is not due, so it is not the one that was leased.
  | leased h =>
    obtain ⟨o, token, expires, row, due, -, after⟩ := h
    refine .modify (WebhookOutbox.key_lease token expires) row (fun hover => ?_)
      (by rw [after]; rfl)
    rcases due with h | h <;> rcases hover.1 with h' | h' <;> rw [h] at h' <;> cases h'
  | @outboxReported turns o event report lease row token leased finishes retries after =>
    refine .modify (WebhookOutbox.key_update report) row (fun hover => ?_) (by rw [after]; rfl)
    -- Nor has it a lease under which it could be reported.
    rw [hover.2] at leased
    cases leased

/-- A transition hands out only credentials that were not used before, and it brings back none that
has been there in the past. -/
theorem Transition.credentialKept (h : Transition start log e call) {id : ℕ}
    (hid : id < start.seq.credentials ∨
      ∃ T x, Past log e.before T ∧ T.credentials.get? id = some x) {c' : Credential}
    (hc' : e.after.credentials.get? id = some c') :
    ∃ c, e.before.credentials.get? id = some c ∧ c.Later c' := by
  have hkept (hk : CredentialsKept (id + 1) e.before e.after) :
      ∃ c, e.before.credentials.get? id = some c ∧ c.Later c' := hk id c' (Nat.lt_succ_self id) hc'
  cases h with
  | redeem h => exact hkept (h.credentialsKept _)
  | batchItem hcode h => exact hkept (h.credentialsKept _)
  | batchStored hkey tally all free after => exact hkept (.of_eq (by rw [after, tables_stored]))
  | idle after => exact hkept (.of_eq (by rw [after]))
  | leased h =>
    obtain ⟨o, token, expires, -, -, -, after⟩ := h
    exact hkept (.of_eq (by rw [after]; rfl))
  | toggledBatch after | toggledCode after
  | outboxReported report lease row token leased finishes retries after
  | redemptionReported report row event redemption current reports agrees after
  | resent row success finished redemptionEvent new outboxEvent outbox after =>
    exact hkept (.of_eq (by rw [after]; rfl))
  | createdBatch h =>
    refine hkept (.of_eq ?_)
    rw [h.after, Dbms.applyAll_cons, applyAll_map_same Tables.credentials fun _ _ => rfl]
    rfl
  -- An import brings no row of an earlier number back.
  | imported new after =>
    rw [after, get?_imported fun c hc hcid => ?_] at hc'
    · exact ⟨c', hc', .refl c'⟩
    · rcases hid with hid | ⟨T, x, hT, hx⟩
      · have := (new c hc).later
        omega
      · rw [← hcid, (new c hc).new T hT] at hx
        cases hx
  | deleted ids hcall after =>
    rw [after] at hc'
    exact ⟨c', get?_of_get?_deleted hc', .refl c'⟩

/-- A transition hands out only credentials that were not used before. -/
theorem Transition.credentialsKept (h : Transition start log e call) :
    CredentialsKept start.seq.credentials e.before e.after :=
  fun _ _ hid hc' => h.credentialKept (Or.inl hid) hc'

end Transitions

end CdkSystem
