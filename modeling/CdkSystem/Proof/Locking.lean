import CdkSystem.Lib.Frame
import CdkSystem.Proof.Exec

/-!
# Locks cover writes

Every change needs the locks of the rows and unique values that it touches (`Write.locks`), leaves
alone what is under all other locks (`Tables.same_apply`), and every statement takes the locks of
its changes (`locks_of_exec`). So `postgres` is a lawful database.

The locks are those of rows and those of unique values: inserting a row takes the lock of each of
its unique values, which is how the wait of an insert for a concurrent one with the same value is
modelled. With `locks_of_exec` a transaction that holds the lock of a row can be sure that nobody
else writes the row until it ends, and that is all that the outline asks of the database.
-/

namespace CdkSystem

open RowLock Relational

/-- The locks that a change needs. -/
def Write.locks : Write → List Lock
  | .createBatch b => [.batch b.id]
  | .toggleBatchStatus id => [.batch id]
  | .createCode c => [.code c.id, .codeText c.code]
  | .toggleCodeStatus id => [.code id]
  | .incrementCodeUseCount id => [.code id]
  | .createCredential c => [.credential c.id]
  | .markCredentialUsed id _ => [.credential id]
  | .deleteCredential id => [.credential id]
  | .createIdempotencyKey k => [.key k.key]
  | .setIdempotencyResponse k _ => [.key k]
  | .createRedemption r => .redemption r.id :: r.eventId.toList.map .redemptionEvent
  | .updateRedemptionWebhookStatus id _ => [.redemption id]
  | .prepareRedemptionWebhookResend id event => [.redemption id, .redemptionEvent event]
  | .createWebhookOutboxEvent o => [.outbox o.id, .outboxEvent o.eventId]
  | .leaseWebhookOutboxEvent id _ _ => [.outbox id]
  | .updateWebhookOutbox id _ => [.outbox id]

/-- Nothing under a lock changes when nothing happens. -/
theorem Lock.Same.refl (l : Lock) (T : Tables) : l.Same T T := by
  cases l <;> first | rfl | exact id

/-- Nothing under a lock changes in two steps when nothing does in each. -/
theorem Lock.Same.trans {l : Lock} {T T' T'' : Tables} (h : l.Same T T') (h' : l.Same T' T'') :
    l.Same T T'' := by
  cases l with
  | codeText | redemptionEvent | outboxEvent => exact fun hx => h (h' hx)
  | batch | code | credential | key | redemption | outbox => exact Eq.trans h' h

section Tables

variable {R K : Type} [HasKey R K] [DecidableEq K]

/-- No row with a property appears when a row without it is inserted. -/
theorem exists_of_exists_insert {t : Table R} {r : R} {p : R → Prop} (h : ¬ p r)
    (hx : ∃ x ∈ t.insert r, p x) : ∃ x ∈ t, p x := by
  obtain ⟨x, hm, hp⟩ := hx
  rcases Table.mem_or_eq_of_mem_insert hm with hm | rfl
  · exact ⟨x, hm, hp⟩
  · exact absurd hp h

/-- No row with a property appears when a row is changed that the change does not give it. -/
theorem exists_of_exists_modify {t : Table R} {k : K} {f : R → R} (hf : ∀ r, key (f r) = key r)
    {p : R → Prop} (h : ∀ r, p (f r) → p r) (hx : ∃ x ∈ t.modify k f hf, p x) : ∃ x ∈ t, p x := by
  obtain ⟨x, hm, hp⟩ := hx
  obtain ⟨r, hr, rfl⟩ := Table.mem_modify.mp hm
  split_ifs at hp
  · exact ⟨r, hr, h r hp⟩
  · exact ⟨r, hr, hp⟩

end Tables

/-- A change leaves alone what is under the locks that it does not need. -/
theorem Tables.same_apply (T : Tables) (w : Write) {l : Lock} (h : l ∉ w.locks) :
    l.Same T (T.apply w) := by
  -- A change that leaves out the lock of a row or of a text is about another one of them.
  cases l with
  | batch id =>
    cases w with
    | createBatch b => exact Table.get?_insert_of_ne fun he => h (by simp [Write.locks, ← he, key])
    | toggleBatchStatus id' =>
      have hne : id ≠ id' := fun he => h (by simp [Write.locks, he])
      exact Table.get?_modify_of_ne (by intro r; rfl) hne
    | _ => rfl
  | code id =>
    cases w with
    | createCode c => exact Table.get?_insert_of_ne fun he => h (by simp [Write.locks, ← he, key])
    | toggleCodeStatus id' | incrementCodeUseCount id' =>
      have hne : id ≠ id' := fun he => h (by simp [Write.locks, he])
      exact Table.get?_modify_of_ne (by intro r; rfl) hne
    | _ => rfl
  | codeText text =>
    cases w with
    | createCode c => exact exists_of_exists_insert fun he => h (by simp [Write.locks, he])
    | toggleCodeStatus id | incrementCodeUseCount id =>
      exact exists_of_exists_modify (by intro r; rfl) fun _ he => he
    | _ => exact id
  | credential id =>
    cases w with
    | createCredential c =>
      exact Table.get?_insert_of_ne fun he => h (by simp [Write.locks, ← he, key])
    | markCredentialUsed id' r =>
      have hne : id ≠ id' := fun he => h (by simp [Write.locks, he])
      exact Table.get?_modify_of_ne (by intro r; rfl) hne
    | deleteCredential id' => exact Table.get?_erase_of_ne fun he => h (by simp [Write.locks, he])
    | _ => rfl
  | key k =>
    cases w with
    | createIdempotencyKey row =>
      exact Table.get?_insert_of_ne fun he => h (by simp [Write.locks, ← he, key])
    | setIdempotencyResponse k' body =>
      have hne : k ≠ k' := fun he => h (by simp [Write.locks, he])
      exact Table.get?_modify_of_ne (by intro r; rfl) hne
    | _ => rfl
  | redemption id =>
    cases w with
    | createRedemption r =>
      exact Table.get?_insert_of_ne fun he => h (by simp [Write.locks, ← he, key])
    | updateRedemptionWebhookStatus id' report | prepareRedemptionWebhookResend id' event =>
      have hne : id ≠ id' := fun he => h (by simp [Write.locks, he])
      exact Table.get?_modify_of_ne (by intro r; rfl) hne
    | _ => rfl
  | redemptionEvent event =>
    cases w with
    | createRedemption r => exact exists_of_exists_insert fun he => h (by simp [Write.locks, he])
    | updateRedemptionWebhookStatus id report =>
      exact exists_of_exists_modify (by intro r; rfl) fun _ he => he
    | prepareRedemptionWebhookResend id event' =>
      refine exists_of_exists_modify (by intro r; rfl) fun r he => absurd ?_ h
      simp only [Redemption.prepareResend, Option.some.injEq] at he
      simp [Write.locks, he]
    | _ => exact id
  | outbox id =>
    cases w with
    | createWebhookOutboxEvent o =>
      exact Table.get?_insert_of_ne fun he => h (by simp [Write.locks, ← he, key])
    | leaseWebhookOutboxEvent id' token expires | updateWebhookOutbox id' report =>
      have hne : id ≠ id' := fun he => h (by simp [Write.locks, he])
      exact Table.get?_modify_of_ne (by intro r; rfl) hne
    | _ => rfl
  | outboxEvent event =>
    cases w with
    | createWebhookOutboxEvent o =>
      exact exists_of_exists_insert fun he => h (by simp [Write.locks, he])
    | leaseWebhookOutboxEvent id token expires | updateWebhookOutbox id report =>
      exact exists_of_exists_modify (by intro r; rfl) fun _ he => he
    | _ => exact id

/-- Every statement takes the locks of the changes that it makes. -/
theorem locks_of_exec {ctx : Ctx Tables Seqs Lock} {q : Query} {c : Choice}
    {e : Effect Seqs Write Lock q.Ans} (h : Query.exec ctx q c = some (.ok e)) :
    ∀ w ∈ e.writes, ∀ l ∈ w.locks, l ∈ e.locks := by
  -- The statements that write take the locks of their rows, and those of new unique values.
  cases q with
  | createBatch p =>
    obtain ⟨payload, -, -, rfl⟩ := exec_createBatch h
    simp [Write.locks, CreateBatchParams.row]
  | getBatchByID id =>
    cases exec_getBatchByID h
    simp
  | toggleBatchStatus id =>
    rcases exec_toggleBatchStatus h with rfl | ⟨b, -, rfl⟩ <;> simp [Write.locks]
  -- The codes of a batch are inserted by one statement, which takes the locks of all of them.
  | createCodes ps =>
    obtain ⟨-, -, rfl⟩ := exec_createCodes h
    simp only [List.mem_map, List.mem_append]
    rintro _ ⟨x, hx, rfl⟩ l hl
    simp only [Write.locks, List.mem_cons, List.not_mem_nil, or_false] at hl
    rcases hl with rfl | rfl
    · exact Or.inl ⟨x, hx, rfl⟩
    · exact Or.inr ⟨x, hx, rfl⟩
  | getCodeByCode code =>
    rcases exec_getCodeByCode h with ⟨rfl, -⟩ | ⟨x, b, -, -, -, rfl⟩ <;> simp
  | getCodeByCodeForUpdate id =>
    rcases exec_getCodeByCodeForUpdate h with ⟨-, rfl⟩ | ⟨x, -, rfl⟩ <;> simp
  | toggleCodeStatus id =>
    rcases exec_toggleCodeStatus h with rfl | ⟨x, -, rfl⟩ <;> simp [Write.locks]
  | incrementCodeUseCount id n =>
    rcases exec_incrementCodeUseCount h with ⟨rfl, -⟩ | ⟨x, -, -, -, rfl⟩ <;> simp [Write.locks]
  | createIdempotencyKey k hash =>
    rcases exec_createIdempotencyKey h with ⟨row, -, rfl⟩ | ⟨-, rfl⟩ <;> simp [Write.locks]
  | lockIdempotencyKeyByKey k =>
    rcases exec_lockIdempotencyKeyByKey h with ⟨-, rfl⟩ | ⟨row, -, rfl⟩ <;> simp
  | setIdempotencyResponse k body =>
    rcases exec_setIdempotencyResponse h with ⟨-, rfl⟩ | ⟨row, -, rfl⟩ <;> simp [Write.locks]
  | createRedemption p =>
    obtain ⟨-, -, -, rfl⟩ := exec_createRedemption h
    simp [Write.locks]
  | getRedemptionByID id =>
    cases exec_getRedemptionByID h
    simp
  | updateRedemptionWebhookStatus p =>
    rcases exec_updateRedemptionWebhookStatus h with ⟨rfl, -⟩ | ⟨r, x, -, -, -, -, rfl⟩ <;>
      simp [Write.locks]
  | prepareRedemptionWebhookResend id event =>
    rcases exec_prepareRedemptionWebhookResend h with rfl | ⟨r, -, -, -, -, rfl⟩ <;>
      simp [Write.locks]
  | createWebhookOutboxEvent event id =>
    obtain ⟨-, -, rfl⟩ := exec_createWebhookOutboxEvent h
    simp [Write.locks, newOutboxEvent]
  | leaseWebhookOutboxEvent token =>
    rcases exec_leaseWebhookOutboxEvent h with rfl | ⟨o, -, -, rfl⟩ <;> simp [Write.locks]
  | updateWebhookOutbox p =>
    rcases exec_updateWebhookOutbox h with rfl | ⟨o, x, -, -, -, -, -, rfl⟩ <;> simp [Write.locks]
  | createCredential p =>
    cases exec_createCredential h
    simp [Write.locks, CreateCredentialParams.row]
  | deleteCredential id =>
    rcases exec_deleteCredential h with rfl | rfl <;> simp [Write.locks]
  | getUnusedCredential plan =>
    rcases exec_getUnusedCredential h with ⟨rfl, -⟩ | ⟨r, -, -, rfl⟩ <;> simp
  | markCredentialUsed id r =>
    rcases exec_markCredentialUsed h with ⟨-, rfl⟩ | ⟨x, -, rfl⟩ <;> simp [Write.locks]
  | countAvailableCredentialsByPlan plan =>
    rw [(exec_countAvailableCredentialsByPlan h).1]
    simp

/-- The database of the service is lawful. -/
theorem postgres_lawful : postgres.Lawful Lock.Same where
  refl := Lock.Same.refl
  trans := Lock.Same.trans
  exec h w hw l hl a := Tables.same_apply a w fun hm => hl (locks_of_exec h w hw l hm)

end CdkSystem
