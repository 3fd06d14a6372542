import Mathlib.Data.List.Nodup
import Mathlib.Tactic

/-!
# Keyed tables

A relational table is a finite list of rows in which no two rows have the same primary key. The
key's uniqueness is a field of the structure (`Table.nodup`), so a table with two rows of one key
cannot be built, and every operation of SQL used here preserves it: inserting a row (`insert`),
updating the row of a key by a function that keeps the key (`modify`), and deleting the row of a key
(`erase`).

Everything is read off `get?`, the row of a key. `get?_eq_some_iff` says which rows a table has, and
each operation has one lemma that gives `get?` afterwards.
-/

namespace Relational

/-- A row type with a primary key. -/
class HasKey (R : Type) (K : outParam Type) where
  /-- The primary key of a row. -/
  key : R → K

export HasKey (key)

/-- A list of rows whose primary keys are pairwise distinct. -/
structure Table (R : Type) {K : Type} [HasKey R K] where
  /-- The rows, in the order of their insertion. -/
  rows : List R
  /-- No two rows have the same key. -/
  nodup : (rows.map key).Nodup

namespace Table

variable {R K : Type} [HasKey R K]

instance : Membership R (Table R) where
  mem t r := r ∈ t.rows

/-- Membership in a table is membership in its list of rows. -/
theorem mem_iff {t : Table R} {r : R} : r ∈ t ↔ r ∈ t.rows := Iff.rfl

/-- Two tables with the same rows are equal. -/
@[ext]
theorem ext {t t' : Table R} (h : t.rows = t'.rows) : t = t' := by
  cases t
  cases t'
  simp only at h
  subst h
  rfl

/-- The table without rows, in which every key is free. -/
def empty : Table R := ⟨[], by simp⟩

instance : EmptyCollection (Table R) := ⟨empty⟩

/-- The number of rows that satisfy a condition: SQL's `COUNT(*)` with a `WHERE` clause. -/
def count (p : R → Bool) (t : Table R) : ℕ := t.rows.countP p

variable [DecidableEq K]

/-- The row of a key: SQL's `SELECT` by primary key. -/
def get? (t : Table R) (k : K) : Option R := t.rows.find? fun r => key r = k

/-- In a list of rows with distinct keys, the first row of a key is the only one. -/
theorem find?_eq_some_iff {rows : List R} (h : (rows.map key).Nodup) {k : K} {r : R} :
    rows.find? (fun r => decide (key r = k)) = some r ↔ r ∈ rows ∧ key r = k := by
  constructor
  · intro hf
    exact ⟨List.mem_of_find?_eq_some hf, by simpa using List.find?_some hf⟩
  · rintro ⟨hr, rfl⟩
    induction rows with
    | nil => simp at hr
    | cons x xs ih =>
      rw [List.map_cons, List.nodup_cons] at h
      rcases List.mem_cons.mp hr with rfl | hr
      · simp
      · have hx : key x ≠ key r := by
          intro he
          exact h.1 (he ▸ List.mem_map_of_mem hr)
        rw [List.find?_cons_of_neg (by simpa using hx)]
        exact ih h.2 hr

/-- The row of a key is the table's row that has it. -/
theorem get?_eq_some_iff {t : Table R} {k : K} {r : R} :
    t.get? k = some r ↔ r ∈ t ∧ key r = k := find?_eq_some_iff t.nodup

/-- A key has no row when no row of the table has the key. -/
theorem get?_eq_none_iff {t : Table R} {k : K} : t.get? k = none ↔ ∀ r ∈ t, key r ≠ k := by
  simp [get?, mem_iff]

/-- The row of a key has that key. -/
theorem key_of_get? {t : Table R} {k : K} {r : R} (h : t.get? k = some r) : key r = k :=
  (get?_eq_some_iff.mp h).2

/-- The row of a key is a row of the table. -/
theorem mem_of_get? {t : Table R} {k : K} {r : R} (h : t.get? k = some r) : r ∈ t :=
  (get?_eq_some_iff.mp h).1

/-- A row of the table is the row of its key. -/
theorem get?_of_mem {t : Table R} {r : R} (h : r ∈ t) : t.get? (key r) = some r :=
  get?_eq_some_iff.mpr ⟨h, rfl⟩

/-- Two rows of a table with the same key are the same row. -/
theorem key_injective {t : Table R} {r r' : R} (hr : r ∈ t) (hr' : r' ∈ t) (h : key r = key r') :
    r = r' := by
  have := get?_of_mem hr
  rw [h, get?_of_mem hr', Option.some.injEq] at this
  exact this.symm

/-- Insert a row. A row whose key the table already has is not inserted. -/
def insert (t : Table R) (r : R) : Table R :=
  if h : key r ∈ t.rows.map key then t
  else ⟨t.rows ++ [r], by
    rw [List.map_append, List.map_singleton, List.nodup_append]
    refine ⟨t.nodup, by simp, ?_⟩
    rintro a ha b hb rfl
    exact h ((List.mem_singleton.mp hb) ▸ ha)⟩

/-- Inserting a row with a new key appends it. -/
theorem rows_insert {t : Table R} {r : R} (h : t.get? (key r) = none) :
    (t.insert r).rows = t.rows ++ [r] := by
  have hk : key r ∉ t.rows.map key := by
    rintro hm
    obtain ⟨r', hr', he⟩ := List.mem_map.mp hm
    exact get?_eq_none_iff.mp h r' hr' he
  rw [insert, dif_neg hk]

/-- The rows after an insertion with a new key. -/
theorem mem_insert {t : Table R} {r r' : R} (h : t.get? (key r) = none) :
    r' ∈ t.insert r ↔ r' ∈ t ∨ r' = r := by
  rw [mem_iff, rows_insert h]
  simp [mem_iff]

/-- A row that the table already had is still there after an insertion. -/
theorem mem_insert_of_mem {t : Table R} {r r' : R} (h : r' ∈ t) : r' ∈ t.insert r := by
  unfold insert
  split_ifs
  · exact h
  · exact List.mem_append_left _ h

/-- A row of the table after an insertion is an old row or the new one. -/
theorem mem_or_eq_of_mem_insert {t : Table R} {r r' : R} (h : r' ∈ t.insert r) :
    r' ∈ t ∨ r' = r := by
  unfold insert at h
  split_ifs at h
  · exact Or.inl h
  · simpa [mem_iff] using h

/-- An inserted row with a new key is the row of its key. -/
theorem get?_insert_self {t : Table R} {r : R} (h : t.get? (key r) = none) :
    (t.insert r).get? (key r) = some r :=
  get?_of_mem ((mem_insert h).mpr (Or.inr rfl))

/-- An insertion leaves the rows of the other keys as they are. -/
theorem get?_insert_of_ne {t : Table R} {r : R} {k : K} (h : key r ≠ k) :
    (t.insert r).get? k = t.get? k := by
  unfold insert
  split_ifs
  · rfl
  · unfold get?
    rw [List.find?_append]
    simp [h]

/-- An insertion keeps the row of a key that had one. -/
theorem get?_insert_of_get? {t : Table R} {r r' : R} {k : K} (h : t.get? k = some r') :
    (t.insert r).get? k = some r' := by
  obtain ⟨hm, rfl⟩ := get?_eq_some_iff.mp h
  exact get?_of_mem (mem_insert_of_mem hm)

/-- Update the row of a key by a function that keeps the key: SQL's `UPDATE` by primary key. -/
def modify (t : Table R) (k : K) (f : R → R) (hf : ∀ r, key (f r) = key r) : Table R :=
  ⟨t.rows.map fun r => if key r = k then f r else r, by
    have : (t.rows.map fun r => if key r = k then f r else r).map key = t.rows.map key := by
      rw [List.map_map]
      refine List.map_congr_left fun r _ => ?_
      simp only [Function.comp_apply]
      split_ifs
      · exact hf r
      · rfl
    rw [this]
    exact t.nodup⟩

/-- The row of each key after an update. -/
theorem get?_modify {t : Table R} {k k' : K} {f : R → R} {hf : ∀ r, key (f r) = key r} :
    (t.modify k f hf).get? k' = if k' = k then (t.get? k).map f else t.get? k' := by
  have hfun : (fun r => decide (key r = k')) ∘ (fun r => if key r = k then f r else r) =
      fun r => decide (key r = k') := by
    funext r
    simp only [Function.comp_apply]
    split_ifs <;> simp [hf]
  unfold get? modify
  simp only
  rw [List.find?_map, hfun]
  split_ifs with h
  · subst h
    cases hx : t.rows.find? fun r => decide (key r = k') with
    | none => rfl
    | some r =>
      have : key r = k' := by simpa using List.find?_some hx
      simp [this]
  · cases hx : t.rows.find? fun r => decide (key r = k') with
    | none => rfl
    | some r =>
      have : key r = k' := by simpa using List.find?_some hx
      simp [this, h]

/-- The row of the key that was updated is the old one under the function. -/
theorem get?_modify_self {t : Table R} {k : K} {f : R → R} {hf : ∀ r, key (f r) = key r} :
    (t.modify k f hf).get? k = (t.get? k).map f := by
  rw [get?_modify, if_pos rfl]

/-- An update leaves the rows of the other keys as they are. -/
theorem get?_modify_of_ne {t : Table R} {k k' : K} {f : R → R} (hf : ∀ r, key (f r) = key r)
    (h : k' ≠ k) : (t.modify k f hf).get? k' = t.get? k' := by
  rw [get?_modify, if_neg h]

/-- The rows after an update: the updated one in its place, and all others as before. -/
theorem mem_modify {t : Table R} {k : K} {f : R → R} {hf : ∀ r, key (f r) = key r} {r : R} :
    r ∈ t.modify k f hf ↔ ∃ r' ∈ t, r = if key r' = k then f r' else r' := by
  simp only [mem_iff, modify, List.mem_map]
  exact ⟨fun ⟨a, ha, he⟩ => ⟨a, ha, he.symm⟩, fun ⟨a, ha, he⟩ => ⟨a, ha, he.symm⟩⟩

/-- Updating a row that was just inserted inserts the updated row. -/
theorem modify_insert {t : Table R} {r : R} {f : R → R} (hf : ∀ r, key (f r) = key r)
    (h : t.get? (key r) = none) : (t.insert r).modify (key r) f hf = t.insert (f r) := by
  have hnew : t.get? (key (f r)) = none := (hf r).symm ▸ h
  have hold : t.rows.map (fun r' => if key r' = key r then f r' else r') = t.rows := by
    have hid : ∀ r' ∈ t.rows, (if key r' = key r then f r' else r') = id r' := fun r' hr' =>
      if_neg (get?_eq_none_iff.mp h r' hr')
    rw [List.map_congr_left hid, List.map_id]
  apply ext
  rw [rows_insert hnew]
  unfold modify
  simp only
  rw [rows_insert h, List.map_append, hold]
  simp

/-- Delete the row of a key; without such a row nothing changes. -/
def erase (t : Table R) (k : K) : Table R :=
  ⟨t.rows.filter fun r => key r ≠ k, t.nodup.sublist (List.filter_sublist.map _)⟩

/-- The rows after a deletion are those of the other keys. -/
theorem mem_erase {t : Table R} {k : K} {r : R} : r ∈ t.erase k ↔ r ∈ t ∧ key r ≠ k := by
  simp [mem_iff, erase]

/-- The key whose row was deleted has no row any more. -/
theorem get?_erase_self {t : Table R} {k : K} : (t.erase k).get? k = none :=
  get?_eq_none_iff.mpr fun _ hr => (mem_erase.mp hr).2

/-- A deletion leaves the rows of the other keys as they are. -/
theorem get?_erase_of_ne {t : Table R} {k k' : K} (h : k' ≠ k) :
    (t.erase k).get? k' = t.get? k' := by
  apply Option.ext
  intro r
  rw [get?_eq_some_iff, get?_eq_some_iff, mem_erase]
  constructor
  · rintro ⟨⟨hm, _⟩, hk⟩
    exact ⟨hm, hk⟩
  · rintro ⟨hm, hk⟩
    exact ⟨⟨hm, hk ▸ h⟩, hk⟩

/-- Insert a row in place of the row of its key: SQL's `INSERT` with `ON CONFLICT DO UPDATE`. -/
def put (t : Table R) (r : R) : Table R := (t.erase (key r)).insert r

/-- A put row is the row of its key. -/
theorem get?_put_self {t : Table R} {r : R} : (t.put r).get? (key r) = some r :=
  get?_insert_self get?_erase_self

/-- A put row leaves the rows of the other keys as they are. -/
theorem get?_put_of_ne {t : Table R} {r : R} {k : K} (h : key r ≠ k) :
    (t.put r).get? k = t.get? k := by
  rw [put, get?_insert_of_ne h, get?_erase_of_ne h.symm]

/-! ## Counting -/

/-- An insertion with a new key adds the new row to the count when it satisfies the condition. -/
theorem count_insert {t : Table R} {r : R} (h : t.get? (key r) = none) (p : R → Bool) :
    (t.insert r).count p = t.count p + if p r then 1 else 0 := by
  rw [count, rows_insert h, List.countP_append, count]
  simp [List.countP_cons]

/-- An update that does not change whether rows satisfy the condition keeps the count. -/
theorem count_modify {t : Table R} {k : K} {f : R → R} {hf : ∀ r, key (f r) = key r}
    {p : R → Bool} (h : ∀ r ∈ t, key r = k → p (f r) = p r) :
    (t.modify k f hf).count p = t.count p := by
  unfold count modify
  rw [List.countP_map]
  refine List.countP_congr fun r hr => ?_
  simp only [Function.comp_apply]
  split_ifs with hk
  · rw [h r hr hk]
  · rfl

/-- An update of a row changes the count by what it changes about the row. -/
theorem count_modify_get? {t : Table R} {k : K} {f : R → R} {hf : ∀ r, key (f r) = key r} {r : R}
    (h : t.get? k = some r) (p : R → Bool) :
    (t.modify k f hf).count p + (if p r then 1 else 0) = t.count p + if p (f r) then 1 else 0 := by
  obtain ⟨hmem, rfl⟩ := get?_eq_some_iff.mp h
  obtain ⟨before, after, hrows⟩ := List.append_of_mem (mem_iff.mp hmem)
  -- No other row has the key.
  have hnodup := t.nodup
  rw [hrows, List.map_append, List.map_cons, List.nodup_append] at hnodup
  obtain ⟨-, hafter, hbefore⟩ := hnodup
  rw [List.nodup_cons] at hafter
  have hkeep : ∀ rows : List R, (∀ x ∈ rows, key x ≠ key r) →
      rows.map (fun x => if key x = key r then f x else x) = rows := by
    intro rows hne
    have hid : ∀ x ∈ rows, (if key x = key r then f x else x) = id x := fun x hx =>
      if_neg (hne x hx)
    rw [List.map_congr_left hid, List.map_id]
  have hb : ∀ x ∈ before, key x ≠ key r := fun x hx =>
    hbefore (key x) (List.mem_map_of_mem hx) (key r) List.mem_cons_self
  have ha : ∀ x ∈ after, key x ≠ key r := fun x hx he =>
    hafter.1 (he ▸ List.mem_map_of_mem hx)
  unfold count modify
  simp only
  rw [hrows, List.map_append, List.map_cons, hkeep before hb, hkeep after ha, if_pos rfl]
  simp only [List.countP_append, List.countP_cons]
  omega

omit [DecidableEq K] in
/-- A condition that no row satisfies counts no rows. -/
theorem count_eq_zero {t : Table R} {p : R → Bool} : t.count p = 0 ↔ ∀ r ∈ t, ¬ p r = true := by
  simp [count, mem_iff]

end Table

end Relational
