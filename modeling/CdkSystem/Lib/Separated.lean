import Mathlib.Data.List.DropRight
import Mathlib.Tactic

/-!
# Fields behind separators

A list of fields is written one after another behind something that comes first, each field after a
separator. When no field contains the separator, the fields can be read off again from the back, but
where the first part ends is known only from the number of fields: what comes first may itself look
as if it had fields (`joined_eq_iff`).
-/

namespace Separated

variable {α : Type} {sep : α}

/-- The part that comes first, and the fields, each after a separator. -/
def joined (sep : α) (front : List α) (fields : List (List α)) : List α :=
  front ++ fields.flatMap fun field => sep :: field

/-- Without fields there is only the front. -/
@[simp]
theorem joined_nil (front : List α) : joined sep front [] = front := by
  simp [joined]

/-- The last field is at the end. -/
theorem joined_snoc (front : List α) (fields : List (List α)) (field : List α) :
    joined sep front (fields ++ [field]) = joined sep front fields ++ sep :: field := by
  simp [joined]

/-- Fields that are joined behind a front, and then the others behind them. -/
theorem joined_append (front : List α) (fields fields' : List (List α)) :
    joined sep front (fields ++ fields') = joined sep (joined sep front fields) fields' := by
  simp [joined]

/-- When a separator and a field without it end a longer list with a separator, the rest is empty.
-/
theorem eq_nil_of_append_cons {as field field' : List α} (h : sep ∉ field)
    (he : sep :: field = as ++ sep :: field') : as = [] := by
  rcases as with - | ⟨a, as⟩
  · rfl
  · have hfield : field = as ++ sep :: field' := (List.cons.inj he).2
    exact absurd (hfield ▸ by simp) h

/-- A list with a separator is cut at its last separator in one way only. -/
theorem append_cons_inj {xs ys field field' : List α} (h : sep ∉ field) (h' : sep ∉ field') :
    xs ++ sep :: field = ys ++ sep :: field' ↔ xs = ys ∧ field = field' := by
  refine ⟨fun he => ?_, fun ⟨hx, hf⟩ => by rw [hx, hf]⟩
  rcases List.append_eq_append_iff.mp he with ⟨as, hys, hfield⟩ | ⟨as, hxs, hfield⟩
  · obtain rfl := eq_nil_of_append_cons h hfield
    exact ⟨by rw [hys, List.append_nil], (List.cons.inj hfield).2⟩
  · obtain rfl := eq_nil_of_append_cons h' hfield
    exact ⟨by rw [hxs, List.append_nil], (List.cons.inj hfield).2.symm⟩

/-- Two lists of fields behind their fronts are the same text exactly if the fields of the one are
the last fields of the other, and its front is the other's front with the fields before these. -/
theorem joined_eq_iff {fields fields' : List (List α)} {front front' : List α}
    (h : ∀ field ∈ fields, sep ∉ field) (h' : ∀ field ∈ fields', sep ∉ field)
    (hlen : fields.length ≤ fields'.length) :
    joined sep front fields = joined sep front' fields' ↔
      fields = fields'.drop (fields'.length - fields.length) ∧
        front = joined sep front' (fields'.take (fields'.length - fields.length)) := by
  induction fields using List.reverseRecOn generalizing fields' with
  | nil => simp
  | append_singleton fields field ih =>
    obtain rfl | ⟨fields', field', rfl⟩ := fields'.eq_nil_or_concat'
    · simp at hlen
    rw [List.length_append, List.length_append, List.length_singleton, List.length_singleton,
      Nat.add_le_add_iff_right] at hlen
    have hfields : ∀ f ∈ fields, sep ∉ f := fun f hf => h f (by simp [hf])
    have hfields' : ∀ f ∈ fields', sep ∉ f := fun f hf => h' f (by simp [hf])
    have hsub : (fields' ++ [field']).length - (fields ++ [field]).length =
        fields'.length - fields.length := by
      simp
    have hle : fields'.length - fields.length ≤ fields'.length := Nat.sub_le _ _
    rw [joined_snoc, joined_snoc, append_cons_inj (h field (by simp)) (h' field' (by simp)),
      ih hfields hfields' hlen, hsub, List.drop_append_of_le_length hle,
      List.take_append_of_le_length hle]
    -- The last fields are the same.
    constructor
    · rintro ⟨⟨hdrop, hfront⟩, rfl⟩
      exact ⟨by rw [← hdrop], hfront⟩
    · rintro ⟨hdrop, hfront⟩
      have hcut := List.append_inj' hdrop rfl
      exact ⟨⟨hcut.1, hfront⟩, (List.singleton_inj.mp hcut.2)⟩

end Separated
