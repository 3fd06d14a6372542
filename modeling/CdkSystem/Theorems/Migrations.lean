import CdkSystem.Migration
import CdkSystem.Redeem

/-!
# The expiry of migrated batches

`migrateBatches` reads an expiry with the layout `2006-01-02 15:04:05` and stores `NULL` for a text
that it cannot read. A migration that is not interrupted keeps all expiries exactly when it can read
all texts (`expiriesKept_iff`).

The rows are migrated one after another in one transaction, so what the table has in the end is told
by an induction on the rows that are left (`migrateBatchRows_ok`): a row that was not rejected is
there with the expiry that was read from its text. A text that cannot be read makes a batch that
never expires, and its codes are then not refused as expired any more (`checkCodeState_ne_expired`).
What interrupts a migration (`Interrupted`) is a query or a row that fails, and then nothing is
migrated.
-/

namespace CdkSystem

open Relational
open RowLock (Time)

variable {rt : Runtime} {env : MigrationEnv} {batches batches' : Table Batch} {r : LegacyBatch}

/-! ## Migrated rows -/

/-- The row that the statement leaves has the arguments' `id`, expiry and status. -/
theorem UpsertBatchParams.row_eq_some {p : UpsertBatchParams} {existing : Option Batch} {b : Batch}
    (h : p.row existing = some b) : b.id = p.id ∧ b.expiresAt = p.expiresAt := by
  unfold row at h
  obtain ⟨payload, -, h⟩ := Option.bind_eq_some_iff.mp h
  obtain ⟨status, -, h⟩ := Option.bind_eq_some_iff.mp h
  dsimp only at h
  split_ifs at h
  obtain rfl := Option.some.inj h
  exact ⟨rfl, rfl⟩

/-- The statement puts its row in place of the one that has its `id`. -/
theorem UpsertBatchParams.exec_eq_some {p : UpsertBatchParams}
    (h : p.exec batches = some batches') :
    ∃ b, p.row (batches.get? p.id) = some b ∧ batches'.get? p.id = some b ∧
      ∀ k, k ≠ p.id → batches'.get? k = batches.get? k := by
  obtain ⟨b, hrow, rfl⟩ := Option.map_eq_some_iff.mp h
  have hid : key b = p.id := (row_eq_some hrow).1
  refine ⟨b, hrow, ?_, ?_⟩
  · rw [← hid]
    exact Table.get?_put_self
  · intro k hk
    refine Table.get?_put_of_ne ?_
    rw [hid]
    exact hk.symm

/-- Whether a row is not migrated: it cannot be scanned, its statement is not executed, or the table
does not accept the row. -/
def RowRejected (rt : Runtime) (env : MigrationEnv) (batches : Table Batch) (r : LegacyBatch) :
    Prop :=
  env.scans r.id = false ∨ env.executes r.id = false ∨
    (r.params rt (env.now r.id)).row (batches.get? r.id) = none

/-- A row is rejected alike when its `id` has the same row. -/
theorem RowRejected.congr (h : batches'.get? r.id = batches.get? r.id) :
    RowRejected rt env batches' r ↔ RowRejected rt env batches r := by
  unfold RowRejected
  rw [h]

/-- The loop comes to its end after a row exactly when the row is not rejected and its rest comes to
its end. -/
theorem migrateBatchRows_cons_ok {rows : List LegacyBatch} :
    migrateBatchRows rt env (r :: rows) batches = .ok batches' ↔
      ¬RowRejected rt env batches r ∧ ∃ batches₁,
        (r.params rt (env.now r.id)).exec batches = some batches₁ ∧
          migrateBatchRows rt env rows batches₁ = .ok batches' := by
  rw [migrateBatchRows]
  -- The row is rejected when it cannot be scanned, when the statement fails, or by a constraint.
  cases hscan : env.scans r.id with
  | false =>
    refine iff_of_false nofun ?_
    rintro ⟨haccepted, -⟩
    exact haccepted (Or.inl hscan)
  | true =>
    rw [if_neg (by decide)]
    cases hexec : (r.params rt (env.now r.id)).exec batches with
    | none =>
      refine iff_of_false nofun ?_
      rintro ⟨-, batches₁, h, -⟩
      cases h
    | some batches₁ =>
      obtain ⟨b, hrow, -, -⟩ := UpsertBatchParams.exec_eq_some hexec
      cases hexecutes : env.executes r.id with
      | false =>
        refine iff_of_false nofun ?_
        rintro ⟨haccepted, -⟩
        exact haccepted (Or.inr (Or.inl hexecutes))
      | true =>
        have haccepted : ¬RowRejected rt env batches r := by
          rintro (h | h | h)
          · exact Bool.false_ne_true (h.symm.trans hscan)
          · exact Bool.false_ne_true (h.symm.trans hexecutes)
          · exact Option.some_ne_none b (hrow.symm.trans h)
        simp [haccepted]

/-- An `id` that is not among the others' is no other row's. -/
theorem id_ne_of_mem {rows : List LegacyBatch} {r' : LegacyBatch} (h : key r ∉ rows.map key)
    (hr' : r' ∈ rows) : r'.id ≠ r.id := by
  intro heq
  exact h (List.mem_map.mpr ⟨r', hr', heq⟩)

/-- A loop that comes to its end leaves the row of every statement, and leaves the others as they
are. -/
theorem migrateBatchRows_ok {rows : List LegacyBatch} (hnodup : (rows.map key).Nodup)
    (h : migrateBatchRows rt env rows batches = .ok batches') :
    (∀ r ∈ rows, ∃ b, (r.params rt (env.now r.id)).row (batches.get? r.id) = some b ∧
      batches'.get? r.id = some b) ∧
    ∀ k, k ∉ rows.map key → batches'.get? k = batches.get? k := by
  induction rows generalizing batches with
  | nil =>
    obtain rfl := Except.ok.inj h
    exact ⟨by simp, fun k _ => rfl⟩
  | cons r rows ih =>
    rw [List.map_cons, List.nodup_cons] at hnodup
    obtain ⟨-, batches₁, hexec, hrest⟩ := migrateBatchRows_cons_ok.mp h
    obtain ⟨b, hrow, hput, hothers⟩ := UpsertBatchParams.exec_eq_some hexec
    obtain ⟨hrows, hkept⟩ := ih hnodup.2 hrest
    refine ⟨?_, ?_⟩
    · intro r' hr'
      rcases List.mem_cons.mp hr' with rfl | hr'
      · exact ⟨b, hrow, (hkept _ hnodup.1).trans hput⟩
      · obtain ⟨b', hrow', hput'⟩ := hrows r' hr'
        rw [hothers r'.id (id_ne_of_mem hnodup.1 hr')] at hrow'
        exact ⟨b', hrow', hput'⟩
    · intro k hk
      rw [List.map_cons, List.mem_cons, not_or] at hk
      rw [hkept k hk.2]
      exact hothers k hk.1

/-- The loop comes to its end exactly when no row is rejected. -/
theorem exists_migrateBatchRows_iff {rows : List LegacyBatch} (hnodup : (rows.map key).Nodup) :
    (∃ batches', migrateBatchRows rt env rows batches = .ok batches') ↔
      ∀ r ∈ rows, ¬RowRejected rt env batches r := by
  induction rows generalizing batches with
  | nil => exact iff_of_true ⟨batches, rfl⟩ (by simp)
  | cons r rows ih =>
    rw [List.map_cons, List.nodup_cons] at hnodup
    rw [List.forall_mem_cons]
    -- A row is rejected or not before the first statement as it is behind it.
    have htail : ∀ batches₁, (r.params rt (env.now r.id)).exec batches = some batches₁ →
        ((∃ batches', migrateBatchRows rt env rows batches₁ = .ok batches') ↔
          ∀ r' ∈ rows, ¬RowRejected rt env batches r') := by
      intro batches₁ hexec
      obtain ⟨b, -, -, hothers⟩ := UpsertBatchParams.exec_eq_some hexec
      rw [ih hnodup.2]
      refine forall₂_congr fun r' hr' => not_congr ?_
      exact RowRejected.congr (hothers r'.id (id_ne_of_mem hnodup.1 hr'))
    constructor
    · rintro ⟨batches', h⟩
      obtain ⟨haccepted, batches₁, hexec, hrest⟩ := migrateBatchRows_cons_ok.mp h
      exact ⟨haccepted, (htail batches₁ hexec).mp ⟨batches', hrest⟩⟩
    · rintro ⟨haccepted, hrows⟩
      have hrow : (r.params rt (env.now r.id)).row (batches.get? r.id) ≠ none :=
        fun hnone => haccepted (Or.inr (Or.inr hnone))
      obtain ⟨b, hb⟩ := Option.ne_none_iff_exists'.mp hrow
      have hexec : (r.params rt (env.now r.id)).exec batches = some (batches.put b) :=
        Option.map_eq_some_iff.mpr ⟨b, hb, rfl⟩
      obtain ⟨batches', hrest⟩ := (htail _ hexec).mpr hrows
      exact ⟨batches', migrateBatchRows_cons_ok.mpr ⟨haccepted, _, hexec, hrest⟩⟩

/-! ## Migrations -/

/-- Whether a migration does not come to its end: the table cannot be queried, a row is rejected, or
the rows end with an error. -/
def Interrupted (rt : Runtime) (env : MigrationEnv) (legacy : Table LegacyBatch)
    (batches : Table Batch) : Prop :=
  env.queried = false ∨ (∃ r ∈ legacy, RowRejected rt env batches r) ∨ env.finished = false

variable {legacy : Table LegacyBatch}

/-- A migration that comes to its end is its loop. -/
theorem migrateBatches_ok_iff : migrateBatches rt env legacy batches = .ok batches' ↔
    env.queried = true ∧ migrateBatchRows rt env legacy.rows batches = .ok batches' ∧
      env.finished = true := by
  unfold migrateBatches
  cases env.queried <;> cases env.finished <;>
    cases migrateBatchRows rt env legacy.rows batches <;>
    simp [bind, Except.bind, pure, Except.pure, throw, throwThe, MonadExceptOf.throw]

/-- A migration comes to its end exactly when it is not interrupted. -/
theorem exists_migrateBatches_iff :
    (∃ batches', migrateBatches rt env legacy batches = .ok batches') ↔
      ¬Interrupted rt env legacy batches := by
  have hrows : (∃ batches', migrateBatchRows rt env legacy.rows batches = .ok batches') ↔
      ¬∃ r ∈ legacy, RowRejected rt env batches r := by
    rw [exists_migrateBatchRows_iff legacy.nodup]
    simp only [not_exists, not_and]
    rfl
  unfold Interrupted
  rw [not_or, not_or, Bool.not_eq_false, Bool.not_eq_false, ← hrows]
  constructor
  · rintro ⟨batches', h⟩
    obtain ⟨hqueried, hloop, hfinished⟩ := migrateBatches_ok_iff.mp h
    exact ⟨hqueried, ⟨batches', hloop⟩, hfinished⟩
  · rintro ⟨hqueried, ⟨batches', hloop⟩, hfinished⟩
    exact ⟨batches', migrateBatches_ok_iff.mpr ⟨hqueried, hloop, hfinished⟩⟩

/-- A migrated row has the expiry that `parseTimePG` reads. -/
theorem expiresAt_of_migrated (h : migrateBatches rt env legacy batches = .ok batches')
    (hr : r ∈ legacy) :
    ∃ b, batches'.get? r.id = some b ∧ b.expiresAt = parseTimePG (nullString r.expiresAt) := by
  obtain ⟨-, hloop, -⟩ := migrateBatches_ok_iff.mp h
  obtain ⟨b, hrow, hput⟩ := (migrateBatchRows_ok legacy.nodup hloop).1 r hr
  exact ⟨b, hput, (UpsertBatchParams.row_eq_some hrow).2⟩

/-! ## Expiries -/

/-- A reading of the texts that the legacy table has for expiries. It agrees with the layout on the
texts that have it. -/
structure LegacyReading where
  read : String → Option Time
  agrees : ∀ s t, GoTime.parseDateTime s = some t → read s = some t

/-- The expiry of a legacy row, as a reading of its text has it; an empty text is none. -/
def LegacyBatch.expiry (reading : LegacyReading) (r : LegacyBatch) : Option Time :=
  if nullString r.expiresAt = "" then none else reading.read (nullString r.expiresAt)

/-- Whether a migration makes no expiring batch permanent: a batch with a text for its expiry has an
expiry afterwards, and a code that is expired under the legacy expiry is still expired. -/
structure ExpiriesKept (rt : Runtime) (env : MigrationEnv) (legacy : Table LegacyBatch)
    (batches : Table Batch) : Prop where
  notNull : ∀ batches', migrateBatches rt env legacy batches = .ok batches' →
    ∀ r ∈ legacy, ∀ s, r.expiresAt = some s → s ≠ "" →
      ∃ b, batches'.get? r.id = some b ∧ b.expiresAt ≠ none
  expired : ∀ batches', migrateBatches rt env legacy batches = .ok batches' →
    ∀ r ∈ legacy, ∃ b, batches'.get? r.id = some b ∧ ∀ (reading : LegacyReading) (now : Time)
      (c : Code), checkCodeState now c { b with expiresAt := r.expiry reading } =
          some (failure .expired "该兑换码已过期") →
        checkCodeState now c b = some (failure .expired "该兑换码已过期")

/-- A code of a batch without an expiry is not expired. -/
theorem checkCodeState_ne_expired {now : Time} {c : Code} {b : Batch} (h : b.expiresAt = none) :
    checkCodeState now c b ≠ some (failure .expired "该兑换码已过期") := by
  unfold checkCodeState
  rw [h, Option.any_none]
  split_ifs <;> simp_all [failure]

/-- In every migration no expiring batch becomes permanent exactly when the migration is interrupted
or every text for an expiry has the layout. -/
theorem expiriesKept_iff (rt : Runtime) (env : MigrationEnv) (legacy : Table LegacyBatch)
    (batches : Table Batch) : ExpiriesKept rt env legacy batches ↔
      Interrupted rt env legacy batches ∨ ∀ r ∈ legacy, ∀ s, r.expiresAt = some s → s ≠ "" →
        (GoTime.parseDateTime s).isSome := by
  constructor
  · intro hkept
    refine Classical.or_iff_not_imp_left.mpr fun hnot r hr s hs hne => ?_
    obtain ⟨batches', h⟩ := exists_migrateBatches_iff.mpr hnot
    obtain ⟨b, hb, hexpiry⟩ := expiresAt_of_migrated h hr
    obtain ⟨b', hb', hnotNull⟩ := hkept.notNull batches' h r hr s hs hne
    obtain rfl := Option.some.inj (hb.symm.trans hb')
    rw [hexpiry, hs, nullString, Option.getD_some, parseTimePG, if_neg hne] at hnotNull
    exact Option.isSome_iff_ne_none.mpr hnotNull
  · intro h
    have hlayout : ∀ batches', migrateBatches rt env legacy batches = .ok batches' →
        ∀ r ∈ legacy, ∀ s, r.expiresAt = some s → s ≠ "" → (GoTime.parseDateTime s).isSome := by
      intro batches' hmigrated
      exact h.resolve_left (exists_migrateBatches_iff.mp ⟨batches', hmigrated⟩)
    refine ⟨?_, ?_⟩
    · intro batches' hmigrated r hr s hs hne
      obtain ⟨b, hb, hexpiry⟩ := expiresAt_of_migrated hmigrated hr
      refine ⟨b, hb, ?_⟩
      rw [hexpiry, hs, nullString, Option.getD_some, parseTimePG, if_neg hne]
      exact Option.isSome_iff_ne_none.mp (hlayout batches' hmigrated r hr s hs hne)
    · intro batches' hmigrated r hr
      obtain ⟨b, hb, hexpiry⟩ := expiresAt_of_migrated hmigrated hr
      refine ⟨b, hb, fun reading now c hexpired => ?_⟩
      -- The legacy expiry is the migrated one.
      have hsame : r.expiry reading = b.expiresAt := by
        rw [hexpiry, LegacyBatch.expiry, parseTimePG]
        split_ifs with hempty
        · rfl
        · obtain ⟨s, hs⟩ : ∃ s, r.expiresAt = some s := by
            refine Option.ne_none_iff_exists'.mp fun hnone => hempty ?_
            rw [hnone]
            rfl
          rw [hs, nullString, Option.getD_some] at hempty ⊢
          obtain ⟨t, ht⟩ := Option.isSome_iff_exists.mp
            (hlayout batches' hmigrated r hr s hs hempty)
          rw [ht]
          exact reading.agrees s t ht
      rw [hsame] at hexpired
      exact hexpired

/-- An environment in which nothing goes wrong. -/
def calm : MigrationEnv := ⟨true, fun _ => true, fun _ => true, true, fun _ => 0⟩

/-- A legacy batch that expires at noon of the 17th of July 2026, to the minute. -/
def julyBatch : LegacyBatch :=
  ⟨1, "July", "", "{}", "ab", 8, some "2026-07-17T12:00", 1, 1, "", "", "active", none⟩

/-- The legacy table in which this batch is the only one. -/
def julyTable : Table LegacyBatch := ⟨[julyBatch], by decide⟩

/-- The migration of this batch comes to its end and makes it permanent: none of its codes is
expired at any time. -/
theorem not_expiriesKept_july : ¬ExpiriesKept .simple calm julyTable ∅ ∧
    ∃ batches' b, migrateBatches .simple calm julyTable ∅ = .ok batches' ∧
      batches'.get? 1 = some b ∧ b.expiresAt = none ∧ ∀ (now : Time) (c : Code),
        checkCodeState now c b ≠ some (failure .expired "该兑换码已过期") := by
  have hended : ∃ batches', migrateBatches .simple calm julyTable ∅ = .ok batches' :=
    exists_migrateBatches_iff.mpr (by
      rintro (h | ⟨r, hr, h⟩ | h)
      · cases h
      · obtain rfl := List.mem_singleton.mp hr
        revert h
        unfold RowRejected
        decide
      · cases h)
  obtain ⟨batches', h⟩ := hended
  have hmem : julyBatch ∈ julyTable := List.mem_singleton.mpr rfl
  obtain ⟨b, hb, hexpiry⟩ := expiresAt_of_migrated h hmem
  have hnull : b.expiresAt = none := hexpiry.trans (by decide)
  refine ⟨fun hkept => ?_, batches', b, h, hb, hnull, fun now c => checkCodeState_ne_expired hnull⟩
  obtain ⟨b', hb', hnotNull⟩ := hkept.notNull batches' h julyBatch hmem _ rfl (by decide)
  obtain rfl := Option.some.inj (hb.symm.trans hb')
  exact hnotNull hnull

end CdkSystem
