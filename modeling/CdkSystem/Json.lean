import Mathlib.Tactic

/-!
# JSON values

The values that `encoding/json` writes and reads and that a `JSONB` column keeps. A `JSONB` column
keeps the value and not its text, so a value is all there is of a stored document.

The decoding functions follow `json.Unmarshal` into a struct: a field that is missing or `null`
leaves the zero value, one of another type is an error (`none`).
-/

namespace CdkSystem

/-- A JSON value, with numbers of any precision and the fields of objects in their order. -/
inductive Json where
  | null
  | bool (b : Bool)
  | num (q : ℚ)
  | str (s : String)
  | arr (items : List Json)
  | obj (fields : List (String × Json))

namespace Json

mutual

/-- Whether the character NUL occurs in a text of the value; `JSONB` does not store it. -/
def hasNul : Json → Bool
  | .str s => s.toList.contains '\x00'
  | .arr items => itemsHaveNul items
  | .obj fields => fieldsHaveNul fields
  | _ => false

/-- Whether NUL occurs in one of the items. -/
def itemsHaveNul : List Json → Bool
  | [] => false
  | j :: js => hasNul j || itemsHaveNul js

/-- Whether NUL occurs in one of the fields or their names. -/
def fieldsHaveNul : List (String × Json) → Bool
  | [] => false
  | (name, j) :: js => name.toList.contains '\x00' || hasNul j || fieldsHaveNul js

end

/-- A field that is left out when the text is empty: the option `omitempty`. -/
def omitEmpty (name s : String) : List (String × Json) :=
  if s = "" then [] else [(name, .str s)]

/-- A field that is left out when there is no value. -/
def omitNone (name : String) (j : Option Json) : List (String × Json) :=
  match j with
  | none => []
  | some j => [(name, j)]

/-- Decode a field of type `string`: an absent one or `null` is empty, and one of another type is an
error. -/
def stringField (fields : List (String × Json)) (name : String) : Option String :=
  match fields.lookup name with
  | none | some .null => some ""
  | some (.str s) => some s
  | some _ => none

/-- Decode a field of type `bool`: an absent one or `null` is false, and one of another type is an
error. -/
def boolField (fields : List (String × Json)) (name : String) : Option Bool :=
  match fields.lookup name with
  | none | some .null => some false
  | some (.bool b) => some b
  | some _ => none

/-- Decode a field of type `int`: an absent one or `null` is zero, and another type or a fraction is
an error. -/
def intField (fields : List (String × Json)) (name : String) : Option ℤ :=
  match fields.lookup name with
  | none | some .null => some 0
  | some (.num q) => if q.den = 1 then some q.num else none
  | some _ => none

section Decoding

variable {name other s : String} {rest : List (String × Json)}

/-- The first field of a name is the one that is found. -/
@[simp]
theorem lookup_cons_self {j : Json} : ((name, j) :: rest).lookup name = some j := by
  simp

/-- A field of another name is passed over. -/
theorem lookup_cons_of_ne {j : Json} (h : name ≠ other) :
    ((other, j) :: rest).lookup name = rest.lookup name := by
  rw [List.lookup_cons, beq_false_of_ne h]

/-- A text of another name is passed over. -/
theorem lookup_omitEmpty_of_ne (h : name ≠ other) :
    (omitEmpty other s ++ rest).lookup name = rest.lookup name := by
  unfold omitEmpty
  split_ifs
  · rfl
  · exact lookup_cons_of_ne h

/-- A value of another name is passed over. -/
theorem lookup_omitNone_of_ne {j : Option Json} (h : name ≠ other) :
    (omitNone other j ++ rest).lookup name = rest.lookup name := by
  cases j with
  | none => rfl
  | some j => exact lookup_cons_of_ne h

/-- A value that was written with `omitempty` is read back. -/
theorem lookup_omitNone {j : Option Json} (h : rest.lookup name = none) :
    (omitNone name j ++ rest).lookup name = j := by
  cases j with
  | none => exact h
  | some j => exact lookup_cons_self

/-- A text is read back from the first field of its name. -/
@[simp]
theorem stringField_cons_self : stringField ((name, .str s) :: rest) name = some s := by
  simp [stringField]

/-- A truth value is read back from the first field of its name. -/
@[simp]
theorem boolField_cons_self {b : Bool} : boolField ((name, .bool b) :: rest) name = some b := by
  simp [boolField]

/-- A natural number is read back from the first field of its name. -/
@[simp]
theorem intField_cons_self {n : ℕ} : intField ((name, .num n) :: rest) name = some (n : ℤ) := by
  simp [intField]

/-- A text that was written with `omitempty` is read back. -/
theorem stringField_omitEmpty (h : rest.lookup name = none) :
    stringField (omitEmpty name s ++ rest) name = some s := by
  unfold omitEmpty
  split_ifs with hs
  · simp [stringField, h, hs]
  · exact stringField_cons_self

/-- A text that was written last with `omitempty` is read back. -/
theorem stringField_omitEmpty_last : stringField (omitEmpty name s) name = some s := by
  have h : stringField (omitEmpty name s ++ []) name = some s := stringField_omitEmpty rfl
  rwa [List.append_nil] at h

/-- A value that was written last with `omitempty` is read back. -/
theorem lookup_omitNone_last {j : Option Json} : (omitNone name j).lookup name = j := by
  have h : (omitNone name j ++ []).lookup name = j := lookup_omitNone rfl
  rwa [List.append_nil] at h

/-- The last text has no field of another name. -/
theorem lookup_omitEmpty_last_of_ne (h : name ≠ other) :
    (omitEmpty other s).lookup name = none := by
  have h' : (omitEmpty other s ++ []).lookup name = none := lookup_omitEmpty_of_ne h
  rwa [List.append_nil] at h'

/-- The last value has no field of another name. -/
theorem lookup_omitNone_last_of_ne {j : Option Json} (h : name ≠ other) :
    (omitNone other j).lookup name = none := by
  have h' : (omitNone other j ++ []).lookup name = none := lookup_omitNone_of_ne h
  rwa [List.append_nil] at h'

/-- Decoding a text passes over fields of other names. -/
theorem stringField_omitEmpty_of_ne (h : name ≠ other) :
    stringField (omitEmpty other s ++ rest) name = stringField rest name := by
  rw [stringField, stringField, lookup_omitEmpty_of_ne h]

/-- Decoding a text passes over values of other names. -/
theorem stringField_omitNone_of_ne {j : Option Json} (h : name ≠ other) :
    stringField (omitNone other j ++ rest) name = stringField rest name := by
  rw [stringField, stringField, lookup_omitNone_of_ne h]

/-- Decoding a number passes over texts of other names. -/
theorem intField_omitEmpty_of_ne (h : name ≠ other) :
    intField (omitEmpty other s ++ rest) name = intField rest name := by
  rw [intField, intField, lookup_omitEmpty_of_ne h]

/-- Decoding a number passes over a field of another name. -/
theorem intField_cons_of_ne {j : Json} (h : name ≠ other) :
    intField ((other, j) :: rest) name = intField rest name := by
  rw [intField, intField, lookup_cons_of_ne h]

/-- Decoding a truth value passes over a field of another name. -/
theorem boolField_cons_of_ne {j : Json} (h : name ≠ other) :
    boolField ((other, j) :: rest) name = boolField rest name := by
  rw [boolField, boolField, lookup_cons_of_ne h]

/-- Decoding a text passes over a field of another name. -/
theorem stringField_cons_of_ne {j : Json} (h : name ≠ other) :
    stringField ((other, j) :: rest) name = stringField rest name := by
  rw [stringField, stringField, lookup_cons_of_ne h]

end Decoding

end Json

end CdkSystem
