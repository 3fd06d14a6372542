import CdkSystem.Admin
import CdkSystem.GoTime

/-!
# The migration from SQLite

`migrateBatches` of `scripts/migrate_sqlite_to_postgres.go`: every row of the legacy table is
scanned and put into the table `batches`. What can go wrong outside is given in advance
(`MigrationEnv`); an error rolls the migration's transaction back.

A row that was scanned is made into the arguments of one statement (`LegacyBatch.params`). The
statement is an upsert, so a batch with the same `id` is overwritten in the columns that the
statement names, and the constraints of the table are checked for the row. An error names the row
that it comes from.
-/

namespace CdkSystem

open Relational
open RowLock (Time)

/-- A row of the legacy table `batches`, as it is scanned. -/
structure LegacyBatch where
  id : ℕ
  name : String
  description : String
  payloadJSON : String
  codePrefix : String
  codeLength : ℤ
  expiresAt : Option String
  maxUsesPerCode : ℤ
  maxRedeemsPerUser : ℤ
  webhookURL : String
  webhookSecret : String
  status : String
  createdAt : Option String

instance : HasKey LegacyBatch ℕ := ⟨LegacyBatch.id⟩

/-- What happens outside of `migrateBatches`: the connections, the scans and the clock, row by row.
-/
structure MigrationEnv where
  /-- Whether the legacy table can be queried. -/
  queried : Bool
  /-- Whether the row of an `id` can be scanned. -/
  scans : ℕ → Bool
  /-- Whether the statement for an `id` reaches the database and its result comes back. -/
  executes : ℕ → Bool
  /-- Whether the rows came to their end without an error. -/
  finished : Bool
  /-- The clock when the row of an `id` is migrated. -/
  now : ℕ → Time

/-- `NullString.String`: an SQL `NULL` is read as an empty text. -/
def nullString (s : Option String) : String := s.getD ""

/-- `normalizeJSON`, as the document that is stored. -/
def normalizeJSON (rt : Runtime) (raw : String) : Option Json :=
  let value := trimSpace raw
  if value = "" ∨ rt.parseJson value = none then rt.parseJson "{}" else rt.parseJson value

/-- `parseTime`: a time that cannot be read is replaced by the present one. -/
def parseTime (now : Time) (s : String) : Time :=
  if s = "" then now else (GoTime.parseDateTime s).getD now

/-- `parseTimePG`: `none` is not valid, which is stored as `NULL`. -/
def parseTimePG (s : String) : Option Time :=
  if s = "" then none else GoTime.parseDateTime s

/-- The arguments of the statement for a row. -/
structure UpsertBatchParams where
  id : ℕ
  name : String
  description : String
  payloadJson : Option Json
  codePrefix : String
  codeLength : ℤ
  expiresAt : Option Time
  maxUsesPerCode : ℤ
  maxRedeemsPerUser : ℤ
  webhookUrl : String
  webhookSecret : String
  status : String
  createdAt : Time

/-- The arguments that `migrateBatches` makes of a row. -/
def LegacyBatch.params (rt : Runtime) (now : Time) (r : LegacyBatch) : UpsertBatchParams where
  id := r.id
  name := r.name
  description := r.description
  payloadJson := normalizeJSON rt r.payloadJSON
  codePrefix := toUpper r.codePrefix
  codeLength := r.codeLength
  expiresAt := parseTimePG (nullString r.expiresAt)
  maxUsesPerCode := r.maxUsesPerCode
  maxRedeemsPerUser := r.maxRedeemsPerUser
  webhookUrl := r.webhookURL
  webhookSecret := r.webhookSecret
  status := r.status
  createdAt := parseTime now (nullString r.createdAt)

/-- The status with a label of the enumeration `batch_status`. -/
def BatchStatus.ofLabel? : String → Option BatchStatus
  | "active" => some .active
  | "disabled" => some .disabled
  | _ => none

/-- The row that the statement leaves, given the one that has its `id` before: columns that the
statement does not name keep their value, or get their default. There is none when the statement is
rejected. -/
def UpsertBatchParams.row (p : UpsertBatchParams) (existing : Option Batch) : Option Batch := do
  let payload ← p.payloadJson
  let status ← BatchStatus.ofLabel? p.status
  let b : Batch :=
    { id := p.id
      name := p.name
      description := p.description
      payloadJson := payload
      codePrefix := p.codePrefix
      codeLength := p.codeLength
      expiresAt := p.expiresAt
      maxUsesPerCode := p.maxUsesPerCode
      maxRedeemsPerUser := p.maxRedeemsPerUser
      webhookUrl := p.webhookUrl
      webhookSecret := p.webhookSecret
      assignCredential := (existing.map Batch.assignCredential).getD false
      credentialPlanType := (existing.map Batch.credentialPlanType).getD ""
      status := status }
  if b.Valid then return b else none

/-- The statement `INSERT INTO batches … ON CONFLICT (id) DO UPDATE`. -/
def UpsertBatchParams.exec (p : UpsertBatchParams) (batches : Table Batch) : Option (Table Batch) :=
  (p.row (batches.get? p.id)).map batches.put

/-- The loop of `migrateBatches`, which stops at the first row that fails and keeps those before it.
-/
def migrateBatchRows (rt : Runtime) (env : MigrationEnv) :
    List LegacyBatch → Table Batch → Except GoError (Table Batch)
  | [], batches => .ok batches
  | r :: rows, batches =>
    if env.scans r.id = false then .error .database
    else
      match (r.params rt (env.now r.id)).exec batches with
      | none => .error (.wrap ("insert batch " ++ toString r.id) .database)
      | some batches =>
        if env.executes r.id = false then
          .error (.wrap ("insert batch " ++ toString r.id) .database)
        else migrateBatchRows rt env rows batches

/-- `migrateBatches`: the table `batches` after it, or the error with which it stops. -/
def migrateBatches (rt : Runtime) (env : MigrationEnv) (legacy : Table LegacyBatch)
    (batches : Table Batch) : Except GoError (Table Batch) := do
  if env.queried = false then throw .database
  let batches ← migrateBatchRows rt env legacy.rows batches
  if env.finished = false then throw .database
  return batches

end CdkSystem
