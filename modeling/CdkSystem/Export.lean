import CdkSystem.Admin

/-!
# Exported codes

`ExportBatch` of `internal/httpapi/admin.go` writes the codes of a batch into a text or CSV file.

The query lists the newest codes first. A code is displayed with its prefix and in groups of
characters, as the administration shows it. The CSV file has one column: it starts with a byte order
mark and a header, and a field is put between quotes when `encoding/csv` finds that it needs them.
-/

namespace CdkSystem

open Relational

/-- `fieldNeedsQuotes` of `encoding/csv` with the comma between fields. -/
def fieldNeedsQuotes (field : String) : Bool :=
  field ≠ "" && (field = "\\." || field.toList.any (· ∈ [',', '"', '\r', '\n']) ||
    field.toList.head?.any isSpace)

/-- A line of `csv.Writer` for a record with one field. -/
def csvRecord (field : String) : String :=
  if fieldNeedsQuotes field then
    "\"" ++ String.ofList (field.toList.flatMap fun c => if c = '"' then ['"', '"'] else [c]) ++
      "\"\n"
  else field ++ "\n"

/-- The body of `ExportBatch` with `fmt=csv`: a byte order mark, a header and the codes. -/
def csvBody (codes : List String) (codePrefix : String) : String :=
  "\uFEFF" ++ csvRecord "兑换码" ++
    String.join (codes.map fun code => csvRecord (displayCode code codePrefix))

/-- The body of `ExportBatch` otherwise: a code on each line. -/
def txtBody (codes : List String) (codePrefix : String) : String :=
  String.join (codes.map fun code => displayCode code codePrefix ++ "\n")

/-- `ListCodesByBatch`: the codes of a batch, newest first. -/
def Tables.listCodesByBatch (T : Tables) (batchID limit offset : ℕ) : List Code :=
  (((T.codes.rows.filter fun c => c.batchId = batchID).mergeSort fun c c' => c'.id ≤ c.id).drop
    offset).take limit

/-- `ExportBatch`: the body, or an error when there is no such batch. -/
def exportBatch (T : Tables) (id : ℕ) (fmtParam : String) : Except Reply String :=
  match T.batches.get? id with
  | none => .error (respondError 404 "批次不存在" [])
  | some b =>
    let codes := (T.listCodesByBatch id 100000 0).map Code.code
    .ok (if fmtParam = "csv" then csvBody codes b.codePrefix else txtBody codes b.codePrefix)

end CdkSystem
