import CdkSystem.Archives
import CdkSystem.Lib.Base64

/-!
# The account converter

`web/src/lib/converter.ts`, which reads account records that a user pastes and converts them into
the form of another program, one ZIP entry for each.

A record is a JavaScript object, so its properties keep their order and a property may be named as
one of the object's prototype. What the browser's clock says in the local zone is given in advance
(`Browser`). Where the source throws a `TypeError`, such as for a value whose `toString` is no
function, the result is `none`.
-/

namespace CdkSystem

open Js (text unit)

namespace Converter

variable {ν : Type}

/-- The bound on the size of the input. -/
def maxInputSize : ℕ := 10 * 1024 * 1024

/-- `DetectedFormat`: which of the accepted formats a pasted text was taken for. -/
inductive DetectedFormat where
  /-- `"JSON 数组"` -/
  | jsonArray
  /-- `"JSONL"` -/
  | jsonLines
  /-- `"JSON 对象"` -/
  | jsonObject
  deriving DecidableEq

/-- `ParsedInput`: the format that was detected, and the records that were read. -/
structure ParsedInput (ν : Type) where
  accounts : List (JsValue ν)
  format : DetectedFormat

/-- `typeof item === "object" && item !== null`. -/
def isObject : JsValue ν → Bool
  | .arr _ | .obj _ => true
  | _ => false

/-- `split(/\r?\n/)`: the lines of a text, with either kind of line end taken off. -/
def splitLines : JsString → List JsString
  | [] => [[]]
  | u :: us =>
    if u = unit '\n' then [] :: splitLines us
    else if u = unit '\r' ∧ us.head? = some (unit '\n') then splitLines us
    else
      match splitLines us with
      | [] => [[u]]
      | line :: lines => (u :: line) :: lines

/-- The loop of `detectAndParse` over the lines, from a line's index on. -/
def parseLines (numbers : NumberText ν) (i : ℕ) (accounts : List (JsValue ν)) :
    List JsString → Except String (List (JsValue ν))
  | [] => .ok accounts
  | line :: lines =>
    let line := Js.trim line
    if line = [] then parseLines numbers (i + 1) accounts lines
    else
      match Js.parse numbers line with
      | none => .error s!"第 {i + 1} 行不是有效 JSON"
      | some obj =>
        if isObject obj then parseLines numbers (i + 1) (accounts ++ [obj]) lines
        else .error s!"第 {i + 1} 行必须是 JSON 对象"

/-- `detectAndParse`. Only a `SyntaxError` of the whole text leads on to the lines. -/
def detectAndParse (numbers : NumberText ν) (input : JsString) : Except String (ParsedInput ν) :=
  let trimmed := Js.trim input
  if trimmed = [] then .error "输入内容为空"
  else if Js.blobSize trimmed > maxInputSize then .error "输入内容超过 10MB 限制"
  else
    match Js.parse numbers trimmed with
    | some (.arr data) =>
      if data.length = 0 then .error "账号数组为空"
      else if !data.all isObject then .error "JSON 数组中的元素必须是对象"
      else .ok { accounts := data, format := .jsonArray }
    | some (.obj fields) => .ok { accounts := [.obj fields], format := .jsonObject }
    | some _ => .error "JSON 根必须是数组或对象"
    | none => do
      let accounts ← parseLines numbers 0 [] (splitLines trimmed)
      if accounts.length = 0 then .error "未解析到任何账号"
      else return { accounts := accounts, format := .jsonLines }

/-- What the converter reads of the browser: how numbers and dates are written and read, and the
local time. -/
structure Browser (ν : Type) where
  numbers : NumberText ν
  /-- The milliseconds of `new Date(text)`; none when the date is invalid. -/
  parseDate : JsString → Option ℤ
  /-- `new Date().toISOString()`. -/
  isoNow : JsString
  month : ℕ
  date : ℕ
  hours : ℕ
  minutes : ℕ

mutual

/-- `String(value)`; a `TypeError` when the value has a property `toString` of its own, which is no
function. -/
def toText (numbers : NumberText ν) : JsValue ν → Option JsString
  | .null => some (text "null")
  | .bool true => some (text "true")
  | .bool false => some (text "false")
  | .num n => some (numbers.toText n)
  | .str s => some s
  | .arr items => itemsToText numbers items
  | .obj fields =>
    if text "toString" ∈ fields.map Prod.fst then none else some (text "[object Object]")

/-- The items of an array joined by commas, `null` as the empty text. -/
def itemsToText (numbers : NumberText ν) : List (JsValue ν) → Option JsString
  | [] => some []
  | [item] => itemToText numbers item
  | item :: items => do
    let first ← itemToText numbers item
    let rest ← itemsToText numbers items
    return first ++ unit ',' :: rest

/-- An item of an array in the text of the array. -/
def itemToText (numbers : NumberText ν) : JsValue ν → Option JsString
  | .null => some []
  | .bool true => some (text "true")
  | .bool false => some (text "false")
  | .num n => some (numbers.toText n)
  | .str s => some s
  | .arr items => itemsToText numbers items
  | .obj fields =>
    if text "toString" ∈ fields.map Prod.fst then none else some (text "[object Object]")

end

/-- `String(value ?? "")`: the text of a property, which is empty for one that is missing or null.
-/
def stringOf (numbers : NumberText ν) : Option (JsValue ν) → Option JsString
  | none | some .null => some []
  | some value => toText numbers value

/-- The property of a value, for keys that no prototype has; a `TypeError` for `null`. -/
def property (value : JsValue ν) (key : String) : Option (Option (JsValue ν)) :=
  match value with
  | .null => none
  | .obj fields => some (fields.lookup (text key))
  | _ => some none

/-- The value of a base64 digit, of the standard alphabet or of the one for URLs. -/
def base64Digit? (u : UInt16) : Option ℕ :=
  if 65 ≤ u.toNat ∧ u.toNat ≤ 90 then some (u.toNat - 65)
  else if 97 ≤ u.toNat ∧ u.toNat ≤ 122 then some (u.toNat - 71)
  else if 48 ≤ u.toNat ∧ u.toNat ≤ 57 then some (u.toNat + 4)
  else if u = unit '+' then some 62
  else if u = unit '/' then some 63
  else none

/-- A base64 text without the padding of a whole number of groups: at most two equals signs. -/
def stripPadding (s : JsString) : JsString :=
  if s.length % 4 = 0 then
    match s.reverse with
    | a :: b :: rest =>
      if a = unit '=' then (if b = unit '=' then rest else b :: rest).reverse else s
    | _ => s
  else s

/-- `atob`: ASCII white space is ignored; none is an `InvalidCharacterError`. -/
def atob (s : JsString) : Option JsString := do
  let stripped := stripPadding (s.filter fun u => !u.toNat ∈ [0x09, 0x0A, 0x0C, 0x0D, 0x20])
  let digits ← stripped.mapM base64Digit?
  let bytes ← Base64.octets digits
  return bytes.map fun b => UInt16.ofNat b.toNat

/-- `decodeJWT`: the payload of a token, and an empty object when it cannot be read. -/
def decodeJWT (numbers : NumberText ν) (token : JsString) : JsValue ν :=
  match token.splitOn (unit '.') with
  | [_, payload, _] =>
    let b64 := payload ++ List.replicate ((4 - payload.length % 4) % 4) (unit '=')
    let json := atob (b64.map fun u =>
      if u = unit '-' then unit '+' else if u = unit '_' then unit '/' else u)
    match json.bind (Js.parse numbers) with
    | some value => value
    | none => .obj []
  | _ => .obj []

/-- `parseExpired`: the seconds since the epoch of a text that the browser takes for a time. -/
def parseExpired (browser : Browser ν) (expired : JsString) : Option ℤ :=
  if expired = [] then none else (browser.parseDate expired).map (· / 1000)

end Converter

/-- An account record: the properties of an object, each key once. -/
structure AccountRecord (ν : Type) where
  /-- The properties in the order of enumeration. -/
  fields : List (JsString × JsValue ν)
  nodup : (fields.map Prod.fst).Nodup

/-- The property of a record under a name, or nothing where the record has none. -/
def AccountRecord.get {ν : Type} (cpa : AccountRecord ν) (key : String) : Option (JsValue ν) :=
  cpa.fields.lookup (text key)

/-- `credentials` of a converted account: the texts that `convertOne` finds in the record and in its
token. -/
structure AccountCredentials where
  accessToken : JsString
  chatgptAccountId : JsString
  chatgptUserId : JsString
  clientId : JsString
  email : JsString
  expiresAt : Option ℤ
  idToken : JsString
  organizationId : JsString
  planType : JsString
  refreshToken : JsString

/-- `extra` of a converted account: an object to which arbitrary keys are assigned. -/
structure AccountExtra (ν : Type) where
  /-- Its own properties. -/
  fields : List (JsString × JsValue ν)
  /-- The prototype that was assigned to it, if one was. -/
  prototype : Option (JsValue ν)

/-- A converted account: its name, its credentials, what was copied from the record, and its
settings. -/
structure ConvertedAccount (ν : Type) where
  name : JsString
  platform : JsString
  type : JsString
  credentials : AccountCredentials
  extra : AccountExtra ν
  concurrency : ℤ
  priority : ℤ
  rateMultiplier : ℤ
  autoPauseOnExpired : Bool

/-- `Sub2ApiAccount`; its list of proxies is empty. -/
structure Sub2ApiAccount (ν : Type) where
  exportedAt : JsString
  accounts : List (ConvertedAccount ν)

namespace Converter

variable {ν : Type}

/-- `extra[key] = value`. The key `__proto__` is no property: it assigns the prototype, when the
value can be one. -/
def assign (extra : AccountExtra ν) (key : JsString) (value : JsValue ν) : AccountExtra ν :=
  if key = text "__proto__" then
    match value with
    | .null | .arr _ | .obj _ => { extra with prototype := some value }
    | _ => extra
  else { extra with fields := Js.setProperty extra.fields key value }

/-- The loop of `convertOne` over the record's entries. -/
def copyEntries (extra : AccountExtra ν) : List (JsString × JsValue ν) → AccountExtra ν
  | [] => extra
  | (key, value) :: entries =>
    if key ≠ text "access_token" ∧ key ≠ text "id_token" ∧ key ≠ text "refresh_token" then
      copyEntries (assign extra key value) entries
    else copyEntries extra entries

/-- `a || b` of strings: the second one where the first one is empty. -/
def orText (a b : JsString) : JsString := if a = [] then b else a

/-- `a || b` of strings, when the second one may be a `TypeError`. -/
def orElseText (a : JsString) (b : Option JsString) : Option JsString :=
  if a = [] then b else some a

/-- `jwt[key] ?? {}`: a claim of the token, or an object without properties where it is missing or
null. -/
def claimOf (jwt : JsValue ν) (key : String) : Option (JsValue ν) := do
  match ← property jwt key with
  | none | some .null => return .obj []
  | some value => return value

/-- `convertOne`: the account of one record, for the time of the export; none is a `TypeError`. -/
def convertOne (browser : Browser ν) (cpa : AccountRecord ν) (exportedAt : JsString) (index : ℕ) :
    Option (Sub2ApiAccount ν) := do
  let numbers := browser.numbers
  let email ← stringOf numbers (cpa.get "email")
  let accessToken ← stringOf numbers (cpa.get "access_token")
  let accountId ← stringOf numbers (cpa.get "account_id")
  let planType ← stringOf numbers (cpa.get "plan_type")
  let idToken ← stringOf numbers (cpa.get "id_token")
  let refreshToken ← stringOf numbers (cpa.get "refresh_token")
  let expired ← stringOf numbers (cpa.get "expired")
  let jwt := if accessToken = [] then .obj [] else decodeJWT numbers accessToken
  let openaiAuth ← claimOf jwt "https://api.openai.com/auth"
  let openaiProfile ← claimOf jwt "https://api.openai.com/profile"
  let chatgptUserId ← stringOf numbers (← property openaiAuth "chatgpt_user_id")
  let clientId ← stringOf numbers (← property jwt "client_id")
  let expiresAt := parseExpired browser expired
  let name := orText email (text "account_" ++ Js.padded 4 index)
  let profileEmail := do stringOf numbers (← property openaiProfile "email")
  let credentialsEmail ← orElseText email profileEmail
  let tokenPlan := do stringOf numbers (← property openaiAuth "chatgpt_plan_type")
  let credentialsPlan ← orElseText planType tokenPlan
  let extraEmail ← orElseText email profileEmail
  let extra : AccountExtra ν :=
    { fields := [(text "email", .str extraEmail), (text "converted_from", .str (text "cpa"))],
      prototype := none }
  let account : ConvertedAccount ν :=
    { name := name ++ unit '-' :: Js.padded 2 browser.month ++
        unit '-' :: Js.padded 2 browser.date ++
        unit '-' :: Js.padded 2 browser.hours ++ unit ':' :: Js.padded 2 browser.minutes
      platform := text "openai"
      type := text "oauth"
      credentials :=
        { accessToken := accessToken, chatgptAccountId := accountId, chatgptUserId := chatgptUserId,
          clientId := clientId, email := credentialsEmail, expiresAt := expiresAt,
          idToken := idToken, organizationId := [], planType := credentialsPlan,
          refreshToken := refreshToken }
      extra := copyEntries extra cpa.fields
      concurrency := 10
      priority := 1
      rateMultiplier := 1
      autoPauseOnExpired := false }
  return { exportedAt := exportedAt, accounts := [account] }

end Converter

end CdkSystem
