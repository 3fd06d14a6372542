import CdkSystem.Admin
import CdkSystem.JsonValue

/-!
# Uploads of credentials

`UploadCredentials` of `internal/httpapi/credentials.go` on an uploaded array of objects, with
`normalizeCredentials`. A record is decoded into a `map[string]any`, so its numbers become
`float64`s, and is encoded again when it is stored.

The nearest `float64` of an integer is computed (`nearestDouble`), and which number is printed for a
`float64` is a parameter (`formatDouble`), since `encoding/json` prints the fewest digits that are
read back as the same `float64`. A record keeps the fields that the file had, but for its email and
its plan.
-/

namespace CdkSystem

open RowLock (Time)

/-! ## Numbers -/

/-- The nearest multiple of `2 ^ e`, of two the even one: the rounding of a significand. -/
def roundShift (n e : ℕ) : ℕ :=
  if 2 * (n % 2 ^ e) < 2 ^ e ∨ (2 * (n % 2 ^ e) = 2 ^ e ∧ n / 2 ^ e % 2 = 0) then n / 2 ^ e * 2 ^ e
  else (n / 2 ^ e + 1) * 2 ^ e

/-- The `float64` that is nearest to a natural number: its significand has 53 bits. -/
def nearestNat (n : ℕ) : ℕ := roundShift n (n.log2 - 52)

/-- The `float64` that is nearest to an integer. -/
def nearestDouble (v : ℤ) : ℤ := v.sign * nearestNat v.natAbs

/-- What an upload uses of Go's standard library. -/
structure UploadRuntime where
  /-- `time.Parse` of the layout `time.RFC3339`. -/
  parseRFC3339 : String → Option Time
  /-- `time.Parse` of the layout `2006-01-02T15:04:05`. -/
  parseDateTime : String → Option Time
  /-- `time.Parse` of the layout `2006-01-02`. -/
  parseDate : String → Option Time
  /-- The number that `encoding/json` prints for a `float64` with this value. -/
  formatDouble : ℚ → ℚ
  /-- The `float64` that `encoding/json` decodes from a number that is no integer. -/
  nearestFraction : ℚ → ℚ

/-- The `float64` that `encoding/json` decodes from a number. -/
def decodeNumber (rt : UploadRuntime) (q : ℚ) : ℚ :=
  if q.den = 1 then nearestDouble q.num else rt.nearestFraction q

/-- Whether a number is in the range of `float64`: it is rounded to a finite value. -/
def inRange (q : ℚ) : Bool := |q| < 2 ^ 1024 - 2 ^ 970

/-- Whether `encoding/json` decodes the numbers of a record. -/
def decodable (fields : List (String × Json)) : Bool := (Json.fieldsNumbers fields).all inRange

/-- The `map[string]any` that is decoded from the fields of an object. -/
def decodeRecord (rt : UploadRuntime) (fields : List (String × Json)) : List (String × Json) :=
  Json.fieldsMapNumbers (decodeNumber rt) (Json.fieldsValue fields [])

/-- `json.Marshal` on a `map[string]any`: its numbers are printed as the encoder prints them. -/
def marshalRecord (rt : UploadRuntime) (raw : List (String × Json)) : Json :=
  .obj (Json.fieldsMapNumbers rt.formatDouble raw)

/-! ## Records -/

/-- `parseCredentialTime`: the three layouts are tried one after the other. -/
def parseCredentialTime (rt : UploadRuntime) (s : String) : Option Time :=
  match rt.parseRFC3339 s with
  | some t => some t
  | none =>
    match rt.parseDateTime s with
    | some t => some t
    | none => rt.parseDate s

/-- The trimmed email of a record, empty when it is no text. -/
def recordEmail (raw : List (String × Json)) : String :=
  trimSpace (match raw.lookup "email" with
    | some (.str s) => s
    | _ => "")

/-- The expiry of a record: `none` when it is invalid. -/
def recordExpired (rt : UploadRuntime) (raw : List (String × Json)) : Option (Option Time) :=
  match raw.lookup "expired" with
  | none | some .null => some none
  | some (.str exp) => if exp = "" then some none else (parseCredentialTime rt exp).map some
  | some _ => none

/-- The body of the loop of `normalizeCredentials`: no item when the record is skipped. -/
def normalizeCredential (rt : UploadRuntime) (selectedPlanType : String)
    (raw : List (String × Json)) : Option CredentialItem :=
  let email := recordEmail raw
  if email = "" ∨ 320 < email.length then none
  else
    let raw := Json.setField "email" (.str email) raw
    let raw := Json.setField "plan_type" (.str selectedPlanType) raw
    match recordExpired rt raw with
    | none => none
    | some expired =>
      some { email, planType := selectedPlanType, expired, data := marshalRecord rt raw }

/-- The loop of `normalizeCredentials`, with the items and the number of skipped records so far. -/
def normalizeCredentialsFrom (rt : UploadRuntime) (selectedPlanType : String) :
    List (List (String × Json)) → List CredentialItem → ℕ → List CredentialItem × ℕ
  | [], items, skipped => (items, skipped)
  | raw :: rawItems, items, skipped =>
    match normalizeCredential rt selectedPlanType raw with
    | none => normalizeCredentialsFrom rt selectedPlanType rawItems items (skipped + 1)
    | some item => normalizeCredentialsFrom rt selectedPlanType rawItems (items ++ [item]) skipped

/-- `normalizeCredentials`: the items of the records that can be used, and how many were skipped. -/
def normalizeCredentials (rt : UploadRuntime) (rawItems : List (List (String × Json)))
    (selectedPlanType : String) : List CredentialItem × ℕ :=
  normalizeCredentialsFrom rt selectedPlanType rawItems [] 0

/-- `UploadCredentials` up to the import: the items and the number of skipped records. The text of
the decoder's error is left out. -/
def uploadItems (rt : UploadRuntime) (planType : String) (docs : List (List (String × Json))) :
    Except Reply (List CredentialItem × ℕ) :=
  match normalizeCredentialPlanType planType with
  | .error message => .error (respondError 400 "套餐类型无效" [message])
  | .ok selectedPlanType =>
    if docs.all decodable then
      .ok (normalizeCredentials rt (docs.map (decodeRecord rt)) selectedPlanType)
    else .error (respondError 400 "文件必须是 JSON 数组" [])

/-- `UploadCredentials`: the plan and the records are checked, and the items are imported in one
transaction. -/
def uploadCredentials (rt : UploadRuntime) (planType : String)
    (docs : List (List (String × Json))) : M Reply :=
  match uploadItems rt planType docs with
  | .error reply => return reply
  | .ok (items, skipped) => do
    match ← (importCredentials items).run with
    | .error _ => return respondError 500 "导入失败" []
    | .ok imported =>
      return respondOK ("成功导入 " ++ toString imported ++ " 条凭证，跳过 " ++ toString skipped ++ " 条")

/-! ## The loop -/

section Loop

variable {rt : UploadRuntime} {plan : String} {raws : List (List (String × Json))}
  {items : List CredentialItem} {skipped : ℕ}

/-- The loop appends the items of the records that are not skipped, and counts the others. -/
theorem normalizeCredentialsFrom_eq :
    normalizeCredentialsFrom rt plan raws items skipped =
      (items ++ raws.filterMap (normalizeCredential rt plan),
        skipped + raws.countP fun raw => (normalizeCredential rt plan raw).isNone) := by
  induction raws generalizing items skipped with
  | nil => simp [normalizeCredentialsFrom]
  | cons raw raws ih =>
    cases hitem : normalizeCredential rt plan raw with
    | none =>
      have hstep : normalizeCredentialsFrom rt plan (raw :: raws) items skipped =
          normalizeCredentialsFrom rt plan raws items (skipped + 1) := by
        simp only [normalizeCredentialsFrom, hitem]
      rw [hstep, ih, List.filterMap_cons_none hitem, List.countP_cons_of_pos (by simp [hitem])]
      simp only [Prod.mk.injEq, true_and]
      omega
    | some item =>
      have hstep : normalizeCredentialsFrom rt plan (raw :: raws) items skipped =
          normalizeCredentialsFrom rt plan raws (items ++ [item]) skipped := by
        simp only [normalizeCredentialsFrom, hitem]
      rw [hstep, ih, List.filterMap_cons_some hitem, List.countP_cons_of_neg (by simp [hitem]),
        List.append_assoc]
      rfl

/-- `normalizeCredentials` returns the items of the records that are not skipped, in their order,
and the number of the others. -/
theorem normalizeCredentials_eq (rt : UploadRuntime) (raws : List (List (String × Json)))
    (plan : String) :
    normalizeCredentials rt raws plan =
      (raws.filterMap (normalizeCredential rt plan),
        raws.countP fun raw => (normalizeCredential rt plan raw).isNone) := by
  unfold normalizeCredentials
  rw [normalizeCredentialsFrom_eq, List.nil_append, Nat.zero_add]

end Loop

end CdkSystem
