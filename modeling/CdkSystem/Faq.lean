import CdkSystem.Admin
import CdkSystem.Lib.Table

/-!
# The order of the FAQ

`ListFAQ` and `ReorderFAQ` of `db/queries/queries.sql` and the handler `ReorderFAQ`. The statement
`ReorderFAQ` updates the matched rows one after another, and the unique index `idx_faq_sort_order`
is checked at each of them; the order of the updates is PostgreSQL's.

The handler numbers the entries in the order in which the request names them, and the entries that
it does not name keep their numbers. Integers of the column are of 32 bits, so a statement that goes
beyond them fails too.
-/

namespace CdkSystem

open Relational

/-- A row of `faq_items`: an entry with the number that it is sorted by. -/
structure FaqItem where
  id : ℕ
  sortOrder : ℤ
  title : String
  content : String
  deriving DecidableEq

instance : HasKey FaqItem ℕ := ⟨FaqItem.id⟩

/-- The largest value of an `INTEGER` of PostgreSQL, which is what `sort_order` is. -/
def maxInteger : ℕ := 2147483647

/-- The order of `ListFAQ`: by the sorting number, and by `id` where it is the same. -/
def FaqItem.le (a b : FaqItem) : Bool :=
  a.sortOrder < b.sortOrder || (a.sortOrder = b.sortOrder && a.id ≤ b.id)

/-- `ListFAQ`: all rows, sorted by their numbers. -/
def listFAQ (t : Table FaqItem) : List FaqItem := t.rows.mergeSort FaqItem.le

/-- The item with another number, which is all that a reordering changes of it. -/
def FaqItem.setSortOrder (n : ℕ) (r : FaqItem) : FaqItem := { r with sortOrder := n }

/-- A new number keeps the key, so the row stays in its place of the table. -/
theorem FaqItem.key_setSortOrder (n : ℕ) (r : FaqItem) : key (r.setSortOrder n) = key r := rfl

/-- The update of one row: it fails when the number is out of range or another row has it. -/
def updateSortOrder (t : Table FaqItem) (id n : ℕ) : Option (Table FaqItem) :=
  if maxInteger < n ∨ t.rows.any (fun r => r.id ≠ id && r.sortOrder = n) then none
  else some (t.modify id (FaqItem.setSortOrder n) (FaqItem.key_setSortOrder n))

/-- The statement `ReorderFAQ`, with the `id`s of the rows and their numbers in the order of the
updates. When an update fails, so does the statement. -/
def updateSortOrders (t : Table FaqItem) : List (ℕ × ℕ) → Option (Table FaqItem)
  | [] => some t
  | u :: updates => (updateSortOrder t u.1 u.2).bind fun t' => updateSortOrders t' updates

/-- An order of the updates: each row with an `id` in the list is updated once, to a position of its
`id`, counted from one. -/
structure IsUpdateOrder (t : Table FaqItem) (ids : List ℕ) (updates : List (ℕ × ℕ)) : Prop where
  nodup : (updates.map Prod.fst).Nodup
  matched : ∀ id, id ∈ updates.map Prod.fst ↔ id ∈ ids ∧ (t.get? id).isSome = true
  ord : ∀ u ∈ updates, 1 ≤ u.2 ∧ ids[u.2 - 1]? = some u.1

/-- The handler `ReorderFAQ`: its answer and the table after it. -/
def reorderFAQ (t : Table FaqItem) (ids : List ℕ) (updates : List (ℕ × ℕ)) :
    Reply × Table FaqItem :=
  if ids = [] then (respondError 400 "排序 ID 列表不能为空" [], t)
  else
    match updateSortOrders t updates with
    | none => (respondError 500 "排序 FAQ 失败" [], t)
    | some t' => (respondOK "", t')

end CdkSystem
