import CdkSystem.Json
import Mathlib.Data.String.Basic

/-!
# The value that a JSON document denotes

Two documents that differ only in the order of fields, or in a field that a later one of the same
name overrides, denote the same value. `Json.value` is the document with the names of every object
sorted and without overridden fields; `encoding/json` decodes a document to it, and writes it back.
Numbers are changed on the way by `Json.mapNumbers`.
-/

namespace CdkSystem

namespace Json

/-- Set the value of a key in fields with sorted names: an assignment to a `map[string]any`. -/
def setField (name : String) (j : Json) : List (String × Json) → List (String × Json)
  | [] => [(name, j)]
  | (other, x) :: rest =>
    if name = other then (name, j) :: rest
    else if name < other then (name, j) :: (other, x) :: rest
    else (other, x) :: setField name j rest

mutual

/-- The value of a document: of fields with the same name the last one counts, and their order does
not. -/
def value : Json → Json
  | .arr items => .arr (itemsValue items)
  | .obj fields => .obj (fieldsValue fields [])
  | j => j

/-- The values of the items of an array, in their order. -/
def itemsValue : List Json → List Json
  | [] => []
  | j :: js => value j :: itemsValue js

/-- The fields are set one after another. -/
def fieldsValue : List (String × Json) → List (String × Json) → List (String × Json)
  | [], m => m
  | (name, j) :: fields, m => fieldsValue fields (setField name (value j) m)

end

mutual

/-- The document with its numbers changed, and everything else as it is. -/
def mapNumbers (f : ℚ → ℚ) : Json → Json
  | .num q => .num (f q)
  | .arr items => .arr (itemsMapNumbers f items)
  | .obj fields => .obj (fieldsMapNumbers f fields)
  | j => j

/-- The items of an array with their numbers changed. -/
def itemsMapNumbers (f : ℚ → ℚ) : List Json → List Json
  | [] => []
  | j :: js => mapNumbers f j :: itemsMapNumbers f js

/-- The fields of an object with the numbers in their values changed. -/
def fieldsMapNumbers (f : ℚ → ℚ) : List (String × Json) → List (String × Json)
  | [] => []
  | (name, j) :: fields => (name, mapNumbers f j) :: fieldsMapNumbers f fields

end

mutual

/-- The numbers in a document, from left to right and at any depth. -/
def numbers : Json → List ℚ
  | .num q => [q]
  | .arr items => itemsNumbers items
  | .obj fields => fieldsNumbers fields
  | _ => []

/-- The numbers in the items of an array, from left to right. -/
def itemsNumbers : List Json → List ℚ
  | [] => []
  | j :: js => numbers j ++ itemsNumbers js

/-- The numbers in the values of the fields, from left to right. -/
def fieldsNumbers : List (String × Json) → List ℚ
  | [] => []
  | (_, j) :: fields => numbers j ++ fieldsNumbers fields

end

/-! ## Keys -/

/-- Names in ascending order, which leaves no name twice. -/
def Sorted (m : List (String × Json)) : Prop := m.Pairwise fun a b => a.1 < b.1

/-- A field that is set is found, and the other fields are found as before. -/
theorem lookup_setField (name k : String) (j : Json) (m : List (String × Json)) :
    (setField name j m).lookup k = if k = name then some j else m.lookup k := by
  induction m with
  | nil =>
    unfold setField
    by_cases hk : k = name
    · simp [hk]
    · rw [if_neg hk, lookup_cons_of_ne hk]
  | cons field rest ih =>
    obtain ⟨other, x⟩ := field
    unfold setField
    by_cases hk : k = name
    · subst hk
      rw [if_pos rfl]
      split_ifs with hother hlt
      · exact lookup_cons_self
      · exact lookup_cons_self
      · rw [lookup_cons_of_ne hother, ih, if_pos rfl]
    · rw [if_neg hk]
      split_ifs with hother hlt
      · rw [lookup_cons_of_ne hk, lookup_cons_of_ne (hother ▸ hk)]
      · exact lookup_cons_of_ne hk
      · by_cases hko : k = other
        · rw [hko, lookup_cons_self, lookup_cons_self]
        · rw [lookup_cons_of_ne hko, lookup_cons_of_ne hko, ih, if_neg hk]

/-- The fields after one is set are that one and old ones. -/
theorem mem_setField {name : String} {j : Json} {m : List (String × Json)} {field : String × Json}
    (h : field ∈ setField name j m) : field = (name, j) ∨ field ∈ m := by
  induction m with
  | nil => exact Or.inl (List.mem_singleton.mp h)
  | cons first rest ih =>
    obtain ⟨other, x⟩ := first
    unfold setField at h
    split_ifs at h
    · rcases List.mem_cons.mp h with h | h
      · exact Or.inl h
      · exact Or.inr (List.mem_cons_of_mem _ h)
    · rcases List.mem_cons.mp h with h | h
      · exact Or.inl h
      · exact Or.inr h
    · rcases List.mem_cons.mp h with h | h
      · exact Or.inr (h ▸ List.mem_cons_self)
      · exact (ih h).imp_right (List.mem_cons_of_mem _)

/-- Names stay sorted when a field is set. -/
theorem Sorted.setField {m : List (String × Json)} (h : Sorted m) (name : String) (j : Json) :
    Sorted (setField name j m) := by
  induction m with
  | nil => exact List.pairwise_singleton _ _
  | cons first rest ih =>
    obtain ⟨other, x⟩ := first
    obtain ⟨hfirst, hrest⟩ := List.pairwise_cons.mp h
    unfold Json.setField
    split_ifs with hother hlt
    · exact List.pairwise_cons.mpr ⟨fun b hb => hother ▸ hfirst b hb, hrest⟩
    · refine List.pairwise_cons.mpr ⟨fun b hb => ?_, h⟩
      rcases List.mem_cons.mp hb with rfl | hb
      · exact hlt
      · exact lt_trans hlt (hfirst b hb)
    · refine List.pairwise_cons.mpr ⟨fun b hb => ?_, ih hrest⟩
      rcases mem_setField hb with rfl | hb
      · exact lt_of_le_of_ne (not_lt.mp hlt) (Ne.symm hother)
      · exact hfirst b hb

/-- A name that is larger than all others comes last. -/
theorem setField_append {name : String} {j : Json} {m : List (String × Json)}
    (h : ∀ field ∈ m, field.1 < name) : setField name j m = m ++ [(name, j)] := by
  induction m with
  | nil => rfl
  | cons first rest ih =>
    obtain ⟨other, x⟩ := first
    have hlt : other < name := h _ List.mem_cons_self
    unfold setField
    rw [if_neg (ne_of_gt hlt), if_neg (not_lt.mpr hlt.le),
      ih fun field hfield => h field (List.mem_cons_of_mem _ hfield)]
    rfl

/-! ## Values -/

mutual

/-- Documents in which the names of every object are sorted. -/
def Canonical : Json → Prop
  | .arr items => ItemsCanonical items
  | .obj fields => Sorted fields ∧ FieldsCanonical fields
  | _ => True

/-- All items of an array are canonical documents. -/
def ItemsCanonical : List Json → Prop
  | [] => True
  | j :: js => Canonical j ∧ ItemsCanonical js

/-- The values of all fields are canonical documents. -/
def FieldsCanonical : List (String × Json) → Prop
  | [] => True
  | (_, j) :: fields => Canonical j ∧ FieldsCanonical fields

end

/-- Fields are canonical if their values are. -/
theorem fieldsCanonical_iff {fields : List (String × Json)} :
    FieldsCanonical fields ↔ ∀ field ∈ fields, Canonical field.2 := by
  induction fields with
  | nil => simp [FieldsCanonical]
  | cons field fields ih =>
    obtain ⟨name, j⟩ := field
    simp [FieldsCanonical, ih]

/-- A canonical field that is set leaves the fields canonical. -/
theorem FieldsCanonical.setField {m : List (String × Json)} (h : FieldsCanonical m) {name : String}
    {j : Json} (hj : Canonical j) : FieldsCanonical (setField name j m) := by
  rw [fieldsCanonical_iff] at h ⊢
  intro field hfield
  rcases mem_setField hfield with rfl | hfield
  · exact hj
  · exact h field hfield

mutual

/-- Values are canonical, so the value of a value is the value itself. -/
theorem canonical_value : ∀ j : Json, Canonical (value j)
  | .arr items => by
    unfold value Canonical
    exact itemsCanonical_itemsValue items
  | .obj fields => by
    unfold value Canonical
    exact canonical_fieldsValue fields [] ⟨List.Pairwise.nil, trivial⟩
  | .null | .bool _ | .num _ | .str _ => trivial

/-- The values of the items of an array are canonical. -/
theorem itemsCanonical_itemsValue : ∀ items : List Json, ItemsCanonical (itemsValue items)
  | [] => trivial
  | j :: js => ⟨canonical_value j, itemsCanonical_itemsValue js⟩

/-- Fields stay sorted and canonical when more fields are set. -/
theorem canonical_fieldsValue : ∀ (fields m : List (String × Json)),
    Sorted m ∧ FieldsCanonical m → Sorted (fieldsValue fields m) ∧
    FieldsCanonical (fieldsValue fields m)
  | [], _, h => h
  | (name, j) :: fields, m, h =>
    canonical_fieldsValue fields (setField name (value j) m)
      ⟨h.1.setField name (value j), h.2.setField (canonical_value j)⟩

end

mutual

/-- A canonical document is its own value: nothing of it is dropped or moved. -/
theorem value_of_canonical : ∀ j : Json, Canonical j → value j = j
  | .arr items, h => by
    unfold value
    rw [itemsValue_of_canonical items h]
  | .obj fields, h => by
    unfold value
    rw [fieldsValue_of_canonical fields [] h.2 h.1, List.nil_append]
  | .null, _ | .bool _, _ | .num _, _ | .str _, _ => rfl

/-- The items of a canonical array are their own values. -/
theorem itemsValue_of_canonical : ∀ items : List Json, ItemsCanonical items →
    itemsValue items = items
  | [], _ => rfl
  | j :: js, h => by
    unfold itemsValue
    rw [value_of_canonical j h.1, itemsValue_of_canonical js h.2]

/-- Sorted and canonical fields that come after others are appended. -/
theorem fieldsValue_of_canonical : ∀ (fields m : List (String × Json)), FieldsCanonical fields →
    Sorted (m ++ fields) → fieldsValue fields m = m ++ fields
  | [], m, _, _ => by
    unfold fieldsValue
    rw [List.append_nil]
  | (name, j) :: fields, m, h, hsorted => by
    have hlast : ∀ field ∈ m, field.1 < name := fun field hfield =>
      (List.pairwise_append.mp hsorted).2.2 field hfield (name, j) List.mem_cons_self
    have happend : m ++ (name, j) :: fields = (m ++ [(name, j)]) ++ fields := by
      rw [List.append_assoc]
      rfl
    unfold fieldsValue
    rw [value_of_canonical j h.1, setField_append hlast, happend]
    exact fieldsValue_of_canonical fields (m ++ [(name, j)]) h.2 (happend ▸ hsorted)

end

/-! ## Numbers -/

section Numbers

variable {f g : ℚ → ℚ}

/-- The fields with their numbers changed, one by one. -/
theorem fieldsMapNumbers_eq (f : ℚ → ℚ) (fields : List (String × Json)) :
    fieldsMapNumbers f fields = fields.map fun field => (field.1, mapNumbers f field.2) := by
  induction fields with
  | nil => rfl
  | cons field fields ih =>
    obtain ⟨name, j⟩ := field
    unfold fieldsMapNumbers
    rw [ih, List.map_cons]

/-- A field is found with its numbers changed. -/
theorem lookup_fieldsMapNumbers (f : ℚ → ℚ) (fields : List (String × Json)) (k : String) :
    (fieldsMapNumbers f fields).lookup k = (fields.lookup k).map (mapNumbers f) := by
  induction fields with
  | nil => rfl
  | cons field fields ih =>
    obtain ⟨name, j⟩ := field
    unfold fieldsMapNumbers
    by_cases hk : k = name
    · rw [hk, lookup_cons_self, lookup_cons_self]
      rfl
    · rw [lookup_cons_of_ne hk, lookup_cons_of_ne hk, ih]

mutual

/-- Canonical documents stay so when their numbers are changed. -/
theorem Canonical.mapNumbers : ∀ j : Json, Canonical j → Canonical (mapNumbers f j)
  | .arr items, h => by
    unfold Json.mapNumbers Canonical
    exact ItemsCanonical.mapNumbers items h
  | .obj fields, h => by
    unfold Json.mapNumbers Canonical
    refine ⟨?_, FieldsCanonical.mapNumbers fields h.2⟩
    rw [fieldsMapNumbers_eq]
    exact List.pairwise_map.mpr h.1
  | .null, _ | .bool _, _ | .num _, _ | .str _, _ => trivial

/-- Canonical items stay so when their numbers are changed. -/
theorem ItemsCanonical.mapNumbers : ∀ items : List Json, ItemsCanonical items →
    ItemsCanonical (itemsMapNumbers f items)
  | [], _ => trivial
  | j :: js, h => ⟨Canonical.mapNumbers j h.1, ItemsCanonical.mapNumbers js h.2⟩

/-- Canonical fields stay so when their numbers are changed. -/
theorem FieldsCanonical.mapNumbers : ∀ fields : List (String × Json), FieldsCanonical fields →
    FieldsCanonical (fieldsMapNumbers f fields)
  | [], _ => trivial
  | (_, j) :: fields, h => ⟨Canonical.mapNumbers j h.1, FieldsCanonical.mapNumbers fields h.2⟩

end

mutual

/-- Numbers that are changed twice in a row are changed once by the composition. -/
theorem mapNumbers_mapNumbers : ∀ j : Json, mapNumbers g (mapNumbers f j) = mapNumbers (g ∘ f) j
  | .arr items => by
    simp only [mapNumbers]
    rw [itemsMapNumbers_itemsMapNumbers items]
  | .obj fields => by
    simp only [mapNumbers]
    rw [fieldsMapNumbers_fieldsMapNumbers fields]
  | .num _ => rfl
  | .null | .bool _ | .str _ => rfl

/-- Numbers in items that are changed twice. -/
theorem itemsMapNumbers_itemsMapNumbers : ∀ items : List Json,
    itemsMapNumbers g (itemsMapNumbers f items) = itemsMapNumbers (g ∘ f) items
  | [] => rfl
  | j :: js => by
    simp only [itemsMapNumbers]
    rw [mapNumbers_mapNumbers j, itemsMapNumbers_itemsMapNumbers js]

/-- Numbers in fields that are changed twice. -/
theorem fieldsMapNumbers_fieldsMapNumbers : ∀ fields : List (String × Json),
    fieldsMapNumbers g (fieldsMapNumbers f fields) = fieldsMapNumbers (g ∘ f) fields
  | [] => rfl
  | (_, j) :: fields => by
    simp only [fieldsMapNumbers]
    rw [mapNumbers_mapNumbers j, fieldsMapNumbers_fieldsMapNumbers fields]

end

mutual

/-- A document is the same with its numbers changed exactly if each number is. -/
theorem mapNumbers_eq_self_iff : ∀ j : Json, mapNumbers f j = j ↔ ∀ q ∈ numbers j, f q = q
  | .arr items => by
    simp only [mapNumbers, numbers, Json.arr.injEq]
    exact itemsMapNumbers_eq_self_iff items
  | .obj fields => by
    simp only [mapNumbers, numbers, Json.obj.injEq]
    exact fieldsMapNumbers_eq_self_iff fields
  | .num q => by simp [mapNumbers, numbers]
  | .null | .bool _ | .str _ => by simp [mapNumbers, numbers]

/-- Items are the same with their numbers changed exactly if each number is. -/
theorem itemsMapNumbers_eq_self_iff : ∀ items : List Json,
    itemsMapNumbers f items = items ↔ ∀ q ∈ itemsNumbers items, f q = q
  | [] => by simp [itemsMapNumbers, itemsNumbers]
  | j :: js => by
    simp only [itemsMapNumbers, itemsNumbers, List.cons.injEq, List.mem_append]
    rw [mapNumbers_eq_self_iff j, itemsMapNumbers_eq_self_iff js]
    exact ⟨fun h q hq => hq.elim (h.1 q) (h.2 q), fun h => ⟨fun q hq => h q (Or.inl hq),
      fun q hq => h q (Or.inr hq)⟩⟩

/-- Fields are the same with their numbers changed exactly if each number is. -/
theorem fieldsMapNumbers_eq_self_iff : ∀ fields : List (String × Json),
    fieldsMapNumbers f fields = fields ↔ ∀ q ∈ fieldsNumbers fields, f q = q
  | [] => by simp [fieldsMapNumbers, fieldsNumbers]
  | (_, j) :: fields => by
    simp only [fieldsMapNumbers, fieldsNumbers, List.cons.injEq, Prod.mk.injEq, true_and,
      List.mem_append]
    rw [mapNumbers_eq_self_iff j, fieldsMapNumbers_eq_self_iff fields]
    exact ⟨fun h q hq => hq.elim (h.1 q) (h.2 q), fun h => ⟨fun q hq => h q (Or.inl hq),
      fun q hq => h q (Or.inr hq)⟩⟩

end

end Numbers

/-- The numbers after a field is set are those of its value and old ones. -/
theorem mem_fieldsNumbers_setField {name : String} {j : Json} {m : List (String × Json)} {q : ℚ}
    (h : q ∈ fieldsNumbers (setField name j m)) : q ∈ numbers j ∨ q ∈ fieldsNumbers m := by
  have hiff : ∀ fields : List (String × Json),
      q ∈ fieldsNumbers fields ↔ ∃ field ∈ fields, q ∈ numbers field.2 := by
    intro fields
    induction fields with
    | nil => simp [fieldsNumbers]
    | cons field fields ih =>
      obtain ⟨other, x⟩ := field
      simp [fieldsNumbers, ih]
  rw [hiff] at h
  obtain ⟨field, hfield, hq⟩ := h
  rcases mem_setField hfield with rfl | hfield
  · exact Or.inl hq
  · exact Or.inr ((hiff m).mpr ⟨field, hfield, hq⟩)

/-- The numbers of a field that is found are among those of all fields. -/
theorem mem_fieldsNumbers_of_lookup {name : String} {j : Json} {fields : List (String × Json)}
    {q : ℚ}
    (h : fields.lookup name = some j) (hq : q ∈ numbers j) : q ∈ fieldsNumbers fields := by
  induction fields with
  | nil => cases h
  | cons field fields ih =>
    obtain ⟨other, x⟩ := field
    unfold fieldsNumbers
    rw [List.mem_append]
    by_cases hname : name = other
    · rw [hname, lookup_cons_self] at h
      obtain rfl := Option.some.inj h
      exact Or.inl hq
    · rw [lookup_cons_of_ne hname] at h
      exact Or.inr (ih h)

mutual

/-- The numbers of a value are in the document. -/
theorem mem_numbers_value {q : ℚ} : ∀ j : Json, q ∈ numbers (value j) → q ∈ numbers j
  | .arr items, h => mem_itemsNumbers_itemsValue items h
  | .obj fields, h => by
    rcases mem_fieldsNumbers_fieldsValue fields [] h with h | h
    · exact h
    · cases h
  | .null, h | .bool _, h | .num _, h | .str _, h => h

/-- The numbers of the values of items are in the items. -/
theorem mem_itemsNumbers_itemsValue {q : ℚ} : ∀ items : List Json,
    q ∈ itemsNumbers (itemsValue items) → q ∈ itemsNumbers items
  | [], h => h
  | j :: js, h => by
    unfold itemsValue itemsNumbers at h
    unfold itemsNumbers
    rw [List.mem_append] at h ⊢
    exact h.imp (mem_numbers_value j) (mem_itemsNumbers_itemsValue js)

/-- The numbers after fields are set are in these fields, or were there before. -/
theorem mem_fieldsNumbers_fieldsValue {q : ℚ} : ∀ (fields m : List (String × Json)),
    q ∈ fieldsNumbers (fieldsValue fields m) → q ∈ fieldsNumbers fields ∨ q ∈ fieldsNumbers m
  | [], _, h => Or.inr h
  | (name, j) :: fields, m, h => by
    have hcons : fieldsNumbers ((name, j) :: fields) = numbers j ++ fieldsNumbers fields := rfl
    unfold fieldsValue at h
    rw [hcons, List.mem_append]
    rcases mem_fieldsNumbers_fieldsValue fields (setField name (value j) m) h with h | h
    · exact Or.inl (Or.inr h)
    · exact (mem_fieldsNumbers_setField h).imp_left fun hj => Or.inl (mem_numbers_value j hj)

end

/-- The fields of the object that a document denotes. -/
def fields (j : Json) : List (String × Json) :=
  match j.value with
  | .obj fields => fields
  | _ => []

/-- The fields of a canonical object are in ascending order of their names. -/
theorem fields_of_canonical {m : List (String × Json)} (h : Canonical (.obj m)) :
    (Json.obj m).fields = m := by
  unfold fields
  rw [value_of_canonical _ h]

end Json

end CdkSystem
