import CdkSystem.Admin
import CdkSystem.GoTime
import CdkSystem.Lib.Decimal

/-!
# The form for a new batch

`web/src/pages/admin/batch-new.tsx`: what the form holds, what it checks before it is submitted, and
the request that it sends. The field for the expiry is of the type `datetime-local`, which holds
nothing or a local date and time.

The texts that a browser makes of a local date and time are written out by `LocalDateTime.text`,
with seconds, and up to three decimals of them, where there are some. The checks of the page are
made in the order of the source, with its messages; the syntax errors of `JSON.parse` are a
parameter.
-/

namespace CdkSystem

/-- `trim` of a page's text: `String.prototype.trim` on the characters that a text field can hold.
-/
def jsTrim (s : String) : String :=
  trimFunc (fun c => (isSpace c && c ≠ '\u0085') || c = '\uFEFF') s

/-- A number with leading zeros, as characters. -/
def numeral (width n : ℕ) : List Char :=
  (Decimal.padded width n).map fun d => Char.ofNat (48 + d)

/-- A local date and time; its seconds, and decimals of them, may be missing. -/
structure LocalDateTime where
  year : ℕ
  month : ℕ
  day : ℕ
  hour : ℕ
  minute : ℕ
  /-- The seconds and their decimals. -/
  second : Option (ℕ × List (Fin 10))
  year_pos : 1 ≤ year
  month_mem : 1 ≤ month ∧ month ≤ 12
  day_mem : 1 ≤ day ∧ day ≤ GoTime.daysIn month year
  hour_le : hour ≤ 23
  minute_le : minute ≤ 59
  second_le : ∀ s ∈ second, s.1 ≤ 59 ∧ s.2.length ≤ 3

/-- The seconds of a local date and time, as they are written behind the minutes. -/
def secondsText : Option (ℕ × List (Fin 10)) → List Char
  | none => []
  | some (s, []) => ':' :: numeral 2 s
  | some (s, d :: ds) =>
    ':' :: (numeral 2 s ++ '.' :: (d :: ds).map fun d => Char.ofNat (48 + d.val))

/-- `YYYY-MM-DDTHH:MM`, with seconds if there are some. -/
def LocalDateTime.text (d : LocalDateTime) : List Char :=
  numeral 4 d.year ++ '-' :: (numeral 2 d.month ++ '-' :: (numeral 2 d.day ++
    'T' :: (numeral 2 d.hour ++ ':' :: (numeral 2 d.minute ++ secondsText d.second))))

/-- What a field of the type `datetime-local` holds. -/
inductive DateTimeValue where
  | empty
  | dateTime (d : LocalDateTime)

/-- `e.target.value` of a `datetime-local` field: an empty text, or a local date and time without a
zone. -/
def DateTimeValue.value : DateTimeValue → String
  | .empty => ""
  | .dateTime d => String.ofList d.text

/-- `BatchInput`, with what the form's fields can hold. -/
structure BatchInput where
  name : String
  description : String
  payloadJSON : String
  count : ℤ
  codePrefix : String
  codeLength : ℤ
  expiresAt : DateTimeValue
  maxUsesPerCode : ℤ
  maxRedeemsPerUser : ℤ
  assignCredential : Bool
  credentialPlanType : String
  webhookURL : String
  webhookSecret : String

/-- A plan that the form offers, with the number of its available credentials. -/
structure OfferedPlan where
  planType : String
  available : ℤ

/-- The state of the list of plans. -/
structure PlanList where
  loading : Bool
  /-- The error of the last time that the list was loaded. -/
  error : Option String
  plans : List OfferedPlan

/-- `validate`, given the message with which `JSON.parse` rejects a text. -/
def BatchInput.validate (syntaxError : String → Option String) (list : PlanList)
    (form : BatchInput) : List String :=
  errorIf (jsTrim form.name = "") "批次名称不能为空" ++
  (if jsTrim form.payloadJSON ≠ "" then
    ((syntaxError form.payloadJSON).map fun message => "JSON 内容格式错误：" ++ message).toList
  else []) ++
  errorIf (form.webhookURL ≠ "" && !"https://".toList.isPrefixOf form.webhookURL.toList)
    "Webhook 地址必须以 https:// 开头" ++
  (if form.assignCredential then
    let planType := jsTrim form.credentialPlanType
    if list.loading then ["套餐列表仍在加载，请稍后再试"]
    else if list.error.isSome then ["套餐列表加载失败，请重新加载"]
    else if planType = "" then ["启用凭证分配时必须选择套餐"]
    else errorIf (!list.plans.any fun plan => plan.planType = planType && 0 < plan.available)
      "所选套餐没有可用凭证，请刷新库存后重试"
  else [])

/-- The body of the request that `handleSubmit` makes of the form. -/
def BatchInput.request (form : BatchInput) : CreateBatchRequest :=
  let payload := jsTrim form.payloadJSON
  { name := jsTrim form.name
    description := form.description
    payloadJSON := if payload = "" then "{}" else payload
    codePrefix := form.codePrefix
    codeLength := form.codeLength
    count := form.count
    maxUsesPerCode := form.maxUsesPerCode
    maxRedeemsPerUser := form.maxRedeemsPerUser
    expiresAt := some form.expiresAt.value
    webhookURL := form.webhookURL
    webhookSecret := form.webhookSecret
    assignCredential := form.assignCredential
    credentialPlanType := if form.assignCredential then jsTrim form.credentialPlanType else "" }

/-- `handleSubmit`: the request, or the errors that the form shows instead. -/
def handleSubmit (syntaxError : String → Option String) (list : PlanList) (form : BatchInput) :
    Except (List String) CreateBatchRequest :=
  if form.validate syntaxError list ≠ [] then .error (form.validate syntaxError list)
  else .ok form.request

end CdkSystem
