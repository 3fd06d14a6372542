import CdkSystem.Proof.Importing
import CdkSystem.Upload

/-!
# Uploads of credentials

`normalizeCredentials` turns each record with a valid email and expiry into an item, and counts the
others; an item is the record with its email trimmed and the selected plan, and its columns agree
with its data (`uploads_accounted`). Numbers are decoded into `float64`s on the way, so they are
intact exactly if they are `float64`s (`upload_numbers_intact_iff`).

The import is one transaction. That it stores all items of an upload or none, and that it returns an
error only if one of its operations has failed, comes from the points that a call of it goes through
(`ImportPoint.importWhole`). Numbers are compared as the values that the documents denote:
`Survives` says that the number which is printed for the nearest `float64` is the number that was
uploaded, whatever digits the encoder chooses.
-/

namespace CdkSystem

open RowLock Relational

variable {rt : UploadRuntime} {plan planType : String} {raw doc : List (String × Json)}
  {docs : List (List (String × Json))} {item : CredentialItem}

/-- A record whose email is a text of 1 to 320 characters after trimming, and whose expiry is
absent, `null`, empty or a time. -/
def importable (rt : UploadRuntime) (raw : List (String × Json)) : Bool :=
  (match raw.lookup "email" with
    | some (.str s) => 1 ≤ (trimSpace s).length && (trimSpace s).length ≤ 320
    | _ => false) &&
  (match raw.lookup "expired" with
    | none | some .null => true
    | some (.str exp) => exp = "" || (parseCredentialTime rt exp).isSome
    | some _ => false)

/-- The fields of the item that is made of a record. -/
def itemFields (plan : String) (raw : List (String × Json)) : List (String × Json) :=
  Json.setField "plan_type" (.str plan) (Json.setField "email" (.str (recordEmail raw)) raw)

/-- Setting the email and the plan leaves the other fields. -/
theorem lookup_itemFields (plan : String) (raw : List (String × Json)) (name : String) :
    (itemFields plan raw).lookup name =
      if name = "plan_type" then some (.str plan)
      else if name = "email" then some (.str (recordEmail raw))
      else raw.lookup name := by
  unfold itemFields
  rw [Json.lookup_setField, Json.lookup_setField]

/-- The expiry is that of the record. -/
theorem recordExpired_itemFields (rt : UploadRuntime) (plan : String) (raw : List (String × Json)) :
    recordExpired rt (itemFields plan raw) = recordExpired rt raw := by
  unfold recordExpired
  rw [lookup_itemFields, if_neg (by decide), if_neg (by decide)]

/-- The expiry is valid if the record can be imported. -/
theorem recordExpired_isSome (rt : UploadRuntime) (raw : List (String × Json)) :
    (recordExpired rt raw).isSome = (match raw.lookup "expired" with
      | none | some .null => true
      | some (.str exp) => exp = "" || (parseCredentialTime rt exp).isSome
      | some _ => false) := by
  unfold recordExpired
  cases raw.lookup "expired" with
  | none => rfl
  | some j =>
    cases j with
    | str exp =>
      simp only
      split_ifs with hempty
      · simp [hempty]
      · simp [hempty]
    | null | bool b | num q | arr items | obj fields => rfl

/-- The email has 1 to 320 characters if the record can be imported. -/
theorem recordEmail_valid (raw : List (String × Json)) :
    (¬ (recordEmail raw = "" ∨ 320 < (recordEmail raw).length)) ↔
      (match raw.lookup "email" with
        | some (.str s) => 1 ≤ (trimSpace s).length && (trimSpace s).length ≤ 320
        | _ => false) = true := by
  have hempty : trimSpace "" = "" := by decide
  have hone : ∀ s : String, s ≠ "" ↔ 1 ≤ s.length := by
    intro s
    rw [Nat.one_le_iff_ne_zero, ne_eq, ne_eq, String.length_eq_zero_iff]
  unfold recordEmail
  cases raw.lookup "email" with
  | none => simp [hempty]
  | some j =>
    cases j with
    | str s =>
      simp only [not_or, not_lt, Bool.and_eq_true, decide_eq_true_eq]
      rw [← ne_eq, hone]
    | null | bool b | num q | arr items | obj fields => simp [hempty]

/-- The item that is made of a record. -/
def itemOfRecord (rt : UploadRuntime) (plan : String) (raw : List (String × Json)) :
    CredentialItem :=
  { email := recordEmail raw
    planType := plan
    expired := (recordExpired rt raw).getD none
    data := marshalRecord rt (itemFields plan raw) }

/-- What the body of the loop makes of a record. -/
theorem normalizeCredential_eq (rt : UploadRuntime) (plan : String) (raw : List (String × Json)) :
    normalizeCredential rt plan raw =
      if importable rt raw then some (itemOfRecord rt plan raw) else none := by
  have hvalid := recordEmail_valid raw
  have hexpired := recordExpired_isSome rt raw
  have hitem := recordExpired_itemFields rt plan raw
  unfold itemFields at hitem
  unfold normalizeCredential importable itemOfRecord itemFields
  rw [← hexpired]
  simp only [hitem]
  by_cases hemail : recordEmail raw = "" ∨ 320 < (recordEmail raw).length
  · rw [if_pos hemail, if_neg]
    rw [Bool.and_eq_true, ← hvalid]
    exact fun h => h.1 hemail
  · rw [if_neg hemail, hvalid.mp hemail, Bool.true_and]
    cases recordExpired rt raw <;> rfl

/-- A decoded record is canonical: its names ascend, and none is there twice. -/
theorem canonical_decodeRecord (rt : UploadRuntime) (doc : List (String × Json)) :
    Json.Canonical (.obj (decodeRecord rt doc)) :=
  Json.Canonical.mapNumbers _ (Json.canonical_value (.obj doc))

/-- The data of an item that is made of a canonical record. -/
theorem fields_marshalRecord (rt : UploadRuntime) (plan : String) {raw : List (String × Json)}
    (h : Json.Canonical (.obj raw)) (name : String) :
    (marshalRecord rt (itemFields plan raw)).fields.lookup name =
      if name = "plan_type" then some (.str plan)
      else if name = "email" then some (.str (recordEmail raw))
      else (raw.lookup name).map (Json.mapNumbers rt.formatDouble) := by
  have htext : ∀ s, Json.Canonical (.str s) := fun _ => trivial
  have hcanonical : Json.Canonical (.obj (itemFields plan raw)) :=
    ⟨(h.1.setField _ _).setField _ _, (h.2.setField (htext _)).setField (htext _)⟩
  have hmarshal := Json.fields_of_canonical
    (Json.Canonical.mapNumbers (f := rt.formatDouble) _ hcanonical)
  unfold marshalRecord
  rw [hmarshal, Json.lookup_fieldsMapNumbers, lookup_itemFields]
  split_ifs <;> rfl

/-- The items are made of the records that can be imported, in their order; the others are counted.
-/
theorem normalizeCredentials_importable (rt : UploadRuntime) (plan : String)
    (raws : List (List (String × Json))) :
    normalizeCredentials rt raws plan =
      ((raws.filter (importable rt)).map (itemOfRecord rt plan),
        raws.countP fun raw => !importable rt raw) := by
  have hitems : raws.filterMap (normalizeCredential rt plan) =
      (raws.filter (importable rt)).map (itemOfRecord rt plan) := by
    induction raws with
    | nil => rfl
    | cons raw raws ih =>
      by_cases h : importable rt raw = true
      · rw [List.filter_cons_of_pos h, List.map_cons, ← ih]
        exact List.filterMap_cons_some (by rw [normalizeCredential_eq, if_pos h])
      · rw [List.filter_cons_of_neg h, ← ih]
        exact List.filterMap_cons_none (by rw [normalizeCredential_eq, if_neg h])
  have hskipped : (raws.countP fun raw => (normalizeCredential rt plan raw).isNone) =
      raws.countP fun raw => !importable rt raw := by
    refine List.countP_congr fun raw _ => ?_
    rw [normalizeCredential_eq]
    by_cases h : importable rt raw = true <;> simp [h]
  rw [normalizeCredentials_eq, hitems, hskipped]

/-! ## Accounting -/

/-- The item that is made of an uploaded object. -/
structure ItemOf (rt : UploadRuntime) (plan : String) (doc : List (String × Json))
    (item : CredentialItem) : Prop where
  /-- The columns are the two fields of the data. -/
  email : item.data.fields.lookup "email" = some (.str item.email)
  planType : item.data.fields.lookup "plan_type" = some (.str item.planType)
  /-- They are the trimmed email of the object, and the selected plan. -/
  trimmed : ∃ s, (Json.obj doc).fields.lookup "email" = some (.str s) ∧ item.email = trimSpace s
  selected : item.planType = plan
  /-- Nothing else is changed. -/
  others : ∀ name, name ≠ "email" → name ≠ "plan_type" →
    item.data.fields.lookup name = (Json.obj doc).fields.lookup name
  /-- The constraints on the columns. -/
  emailLength : 1 ≤ item.email.length ∧ item.email.length ≤ 320
  planLength : 1 ≤ item.planType.length ∧ item.planType.length ≤ 100
  /-- The expiry is that of the object. -/
  expired : recordExpired rt (Json.obj doc).fields = some item.expired

/-- A record without numbers is decoded to the fields that it denotes. -/
theorem decodeRecord_of_no_numbers (rt : UploadRuntime) (h : Json.fieldsNumbers doc = []) :
    decodeRecord rt doc = (Json.obj doc).fields := by
  have hfields : (Json.obj doc).fields = Json.fieldsValue doc [] := rfl
  rw [hfields]
  refine (Json.fieldsMapNumbers_eq_self_iff _).mpr fun q hq => ?_
  rcases Json.mem_fieldsNumbers_fieldsValue doc [] hq with hq | hq
  · rw [h] at hq
    cases hq
  · cases hq

/-- A plan that is accepted has 1 to 100 characters. -/
theorem normalizeCredentialPlanType_length (h : normalizeCredentialPlanType planType = .ok plan) :
    1 ≤ plan.length ∧ plan.length ≤ 100 := by
  unfold normalizeCredentialPlanType at h
  split_ifs at h with hlength hcontrol
  obtain rfl := Except.ok.inj h
  rw [not_or, not_lt, not_lt] at hlength
  exact hlength

/-- The item that is made of an object without numbers. -/
theorem itemOf_itemOfRecord (hplan : 1 ≤ plan.length ∧ plan.length ≤ 100)
    (hnumbers : Json.fieldsNumbers doc = []) (h : importable rt (decodeRecord rt doc) = true) :
    ItemOf rt plan doc (itemOfRecord rt plan (decodeRecord rt doc)) := by
  have hdecode := decodeRecord_of_no_numbers rt hnumbers
  have hdata := fields_marshalRecord rt plan (canonical_decodeRecord rt doc)
  -- Without numbers the record has the values of the object under all names.
  have hsame : ∀ name, ((decodeRecord rt doc).lookup name).map (Json.mapNumbers rt.formatDouble) =
      (Json.obj doc).fields.lookup name := by
    intro name
    rw [hdecode]
    cases hx : (Json.obj doc).fields.lookup name with
    | none => rfl
    | some x =>
      refine congrArg some ((Json.mapNumbers_eq_self_iff x).mpr fun q hq => ?_)
      have hmem := Json.mem_fieldsNumbers_of_lookup hx hq
      rcases Json.mem_fieldsNumbers_fieldsValue doc [] hmem with hq | hq
      · rw [hnumbers] at hq
        cases hq
      · cases hq
  have hvalid := h
  unfold importable at hvalid
  rw [Bool.and_eq_true, ← recordEmail_valid, ← recordExpired_isSome, not_or, not_lt] at hvalid
  obtain ⟨⟨hne, hlength⟩, hexpired⟩ := hvalid
  have hpos : 1 ≤ (recordEmail (decodeRecord rt doc)).length := by
    rw [Nat.one_le_iff_ne_zero, ne_eq, String.length_eq_zero_iff]
    exact hne
  refine ⟨?_, ?_, ?_, rfl, fun name hemail hplanType => ?_, ⟨hpos, hlength⟩, hplan, ?_⟩
  · exact (hdata "email").trans (by rw [if_neg (by decide), if_pos rfl]; rfl)
  · exact (hdata "plan_type").trans (if_pos rfl)
  · -- An email that is not empty is a text of the object.
    have htext : recordEmail (decodeRecord rt doc) ≠ "" := hne
    have hempty : trimSpace "" = "" := by decide
    change ∃ s, _ ∧ recordEmail (decodeRecord rt doc) = trimSpace s
    rw [hdecode] at htext ⊢
    unfold recordEmail at htext ⊢
    cases hx : (Json.obj doc).fields.lookup "email" with
    | none =>
      rw [hx] at htext
      exact absurd hempty htext
    | some j =>
      rw [hx] at htext
      cases j with
      | str s => exact ⟨s, rfl, rfl⟩
      | null | bool b | num q | arr items | obj fields => exact absurd hempty htext
  · rw [← hsame name]
    exact (hdata name).trans (by rw [if_neg hplanType, if_neg hemail])
  · rw [← hdecode]
    change recordExpired rt (decodeRecord rt doc) =
      some ((recordExpired rt (decodeRecord rt doc)).getD none)
    cases hx : recordExpired rt (decodeRecord rt doc) with
    | none =>
      rw [hx] at hexpired
      cases hexpired
    | some expired => rfl

/-- An import of the items that has stored nothing or everything, and says so. -/
structure ImportWhole {ι : Type} [DecidableEq ι] (items : List CredentialItem) (i : ι)
    (d : Database ι) (p : Option (M Result)) : Prop where
  whole : d.ownLog i = [] ∨ ∃ e, d.ownLog i = [e] ∧ StoresAll items e
  /-- An import returns an error only when one of its operations has failed, and then it has stored
  nothing; otherwise it returns the number of the items, and has stored all of them. -/
  returned : ∀ r, p = some (.ret r) →
    (∃ err, r = .imported (.error err)) ∧ d.failed i = true ∧ d.ownLog i = [] ∨
      r = .imported (.ok items.length) ∧ ∃ e, d.ownLog i = [e] ∧ StoresAll items e

/-- An import stores all items or none, in every run and whatever fails. -/
theorem ImportPoint.importWhole {ι : Type} [DecidableEq ι] {start : Start ι} {i : ι}
    {items : List CredentialItem} {p : Option (M Result)} {d : Database ι}
    (h : ImportPoint start i items p d) : ImportWhole items i d p := by
  refine ⟨h.ownLog, fun r hr => ?_⟩
  cases h with
  | begin htx hlog =>
    rw [callProgram_import] at hr
    cases hr
  | inserting rest hitems hrows hids hbelow htx hlog =>
    cases rest with
    | nil => cases hr
    | cons item rest =>
      rw [importRest_cons] at hr
      cases hr
  | failed hlog hfailed => cases hr
  | stored hlog hall => cases hr
  | returnedError hlog hfailed =>
    cases hr
    exact Or.inl ⟨⟨_, rfl⟩, hfailed, hlog⟩
  | returned hlog hall =>
    cases hr
    exact Or.inr ⟨rfl, _, hlog, hall⟩
  | dead h => cases hr

/-- What `UploadCredentials` answers when `importCredentials` has returned. -/
def uploadReply (skipped : ℕ) : Except GoError ℕ → Reply
  | .error _ => respondError 500 "导入失败" []
  | .ok imported =>
    respondOK ("成功导入 " ++ toString imported ++ " 条凭证，跳过 " ++ toString skipped ++ " 条")

/-- `UploadCredentials` imports the items of the objects, if the plan is accepted and the numbers of
the objects can be decoded. -/
theorem uploadCredentials_eq {items : List CredentialItem} {skipped : ℕ}
    (hplan : normalizeCredentialPlanType planType = .ok plan)
    (hdocs : docs.all decodable = true)
    (h : normalizeCredentials rt (docs.map (decodeRecord rt)) plan = (items, skipped)) :
    uploadCredentials rt planType docs =
      ((importCredentials items).run >>= fun r => pure (uploadReply skipped r)) := by
  have hitems : uploadItems rt planType docs = .ok (items, skipped) := by
    unfold uploadItems
    rw [hplan]
    dsimp only
    rw [if_pos hdocs, h]
  unfold uploadCredentials
  rw [hitems]
  dsimp only
  generalize (importCredentials items).run = p
  refine congrArg (fun K => p >>= K) (funext fun r => ?_)
  cases r <;> rfl

/-- Objects without numbers can always be decoded. -/
theorem all_decodable_of_no_numbers (hdocs : ∀ doc ∈ docs, Json.fieldsNumbers doc = []) :
    docs.all decodable = true := by
  refine List.all_eq_true.mpr fun doc hdoc => ?_
  unfold decodable
  rw [hdocs doc hdoc]
  rfl

/-- For every plan that is accepted and all objects without numbers: the items are made of those
that can be imported, in their order, and the others are counted as skipped; an item is the object
with its email trimmed and the plan, with columns that agree with it and satisfy the constraints;
the handler imports these items and answers with their numbers; and in every run the import stores
all of them, or none when one of its operations fails. -/
theorem uploads_accounted (rt : UploadRuntime)
    (hplan : normalizeCredentialPlanType planType = .ok plan) (docs : List (List (String × Json)))
    (hdocs : ∀ doc ∈ docs, Json.fieldsNumbers doc = []) {items : List CredentialItem} {skipped : ℕ}
    (h : normalizeCredentials rt (docs.map (decodeRecord rt)) plan = (items, skipped)) :
    items.length + skipped = docs.length ∧
      List.Forall₂ (ItemOf rt plan)
        (docs.filter fun doc => importable rt (Json.obj doc).fields) items ∧
      (uploadCredentials rt planType docs =
        ((importCredentials items).run >>= fun r => pure (uploadReply skipped r))) ∧
      ∀ (ι : Type) [DecidableEq ι] (start : Start ι) (i : ι) (as : List (Action ι Choice))
        (s : State ι), start.calls i = .importCredentials items → start.run as = some s →
        ImportWhole items i s.db (s.progs i) := by
  have hupload := uploadCredentials_eq hplan (all_decodable_of_no_numbers hdocs) h
  rw [normalizeCredentials_importable, Prod.mk.injEq] at h
  obtain ⟨hitems, hskipped⟩ := h
  refine ⟨?_, ?_, hupload, fun ι _ start i as s hcall hrun =>
    (Start.importPoint hrun hcall).importWhole⟩
  · -- Every object makes an item or is skipped.
    have hall := List.length_eq_countP_add_countP (importable rt) (l := docs.map (decodeRecord rt))
    rw [List.length_map] at hall
    rw [← hitems, ← hskipped, List.length_map, ← List.countP_eq_length_filter, hall]
    simp
  · -- An item is made of the record of its object, which without numbers is the object itself.
    have hdecode : docs.map (decodeRecord rt) = docs.map fun doc => (Json.obj doc).fields :=
      List.map_congr_left fun doc hdoc => decodeRecord_of_no_numbers rt (hdocs doc hdoc)
    rw [hdecode, List.filter_map, List.map_map] at hitems
    rw [← hitems, List.forall₂_map_right_iff]
    refine List.forall₂_same.mpr fun doc hdoc => ?_
    obtain ⟨hmem, himportable⟩ := List.mem_filter.mp hdoc
    have heq := decodeRecord_of_no_numbers rt (hdocs doc hmem)
    have hitem : ItemOf rt plan doc (itemOfRecord rt plan (decodeRecord rt doc)) :=
      itemOf_itemOfRecord (normalizeCredentialPlanType_length hplan) (hdocs doc hmem)
        (heq ▸ himportable)
    rw [heq] at hitem
    exact hitem

/-- Two objects, of which one has no email. -/
def twoObjects : List (List (String × Json)) :=
  [[("email", .str " a@example.com "), ("token", .str "secret")], [("token", .str "secret")]]

/-- Functions of the standard library that print numbers as they are. -/
def UploadRuntime.simple : UploadRuntime where
  parseRFC3339 := fun _ => none
  parseDateTime := fun _ => none
  parseDate := fun _ => none
  formatDouble := id
  nearestFraction := id

/-- The items of the two objects: the second one is skipped. -/
def objectItems : List CredentialItem :=
  (normalizeCredentials .simple (twoObjects.map (decodeRecord .simple)) "pro").1

/-- The items are imported into tables without rows. -/
def importObjects : Start Unit :=
  Start.of (fun _ => .importCredentials objectItems) .empty ⟨0, 0, 0, 0, 0⟩ Tables.empty_below
    Tables.checkIntegrity_empty

/-- The import begins, inserts its item, commits and ends. -/
def importObjectsRun : List (Action Unit Choice) := List.replicate 4 (.exec () ⟨0, "", .unsent⟩)

/-- An upload of two objects: the item of the first one has its trimmed email, and its row is
stored. -/
theorem uploads_accounted_two : ∃ item s e c, objectItems = [item] ∧
    (∃ doc ∈ twoObjects, ItemOf .simple "pro" doc item) ∧
      importObjects.run importObjectsRun = some s ∧
    s.progs () = some (.ret (.imported (.ok 1))) ∧ s.db.ownLog () = [e] ∧
    e.after.credentials.rows = e.before.credentials.rows ++ [c] ∧ c = item.row c.id := by
  have hplan : normalizeCredentialPlanType " pro " = .ok "pro" := by decide
  have hdocs : ∀ doc ∈ twoObjects, Json.fieldsNumbers doc = [] := by decide
  obtain ⟨-, hitems, -, himport⟩ := uploads_accounted .simple hplan twoObjects hdocs
    (show _ = (objectItems, 1) from rfl)
  have hfilter : (twoObjects.filter fun doc => importable .simple (Json.obj doc).fields) =
      twoObjects.take 1 := by rfl
  rw [hfilter] at hitems
  obtain ⟨item, rest, hitem, hrest, heq⟩ := List.forall₂_cons_left_iff.mp hitems
  obtain rfl := List.forall₂_nil_left_iff.mp hrest
  have hreturned : importObjects.result? importObjectsRun () = some (.imported (.ok 1)) := by rfl
  obtain ⟨s, hs, hp⟩ := Start.result?_eq_some hreturned
  rcases (himport Unit importObjects () importObjectsRun s rfl hs).returned _ hp with
    ⟨⟨err, herr⟩, -⟩ | ⟨-, e, hown, cs, hrows, hafter, -⟩
  · cases herr
  · rw [heq] at hrows
    obtain ⟨c, cs, hc, hcs, rfl⟩ := List.forall₂_cons_left_iff.mp hrows
    obtain rfl := List.forall₂_nil_left_iff.mp hcs
    exact ⟨item, s, e, c, heq, ⟨_, List.mem_cons_self, hitem⟩, hs, hp, hown,
      hafter, hc⟩

/-! ## Numbers -/

/-- The data of an item denotes the same values as an object, except for the email and the plan. -/
def SameFields (doc : List (String × Json)) (item : CredentialItem) : Prop :=
  ∀ name, name ≠ "email" → name ≠ "plan_type" →
    item.data.fields.lookup name = (Json.obj doc).fields.lookup name

/-- The data of all items of an upload denote the values of their objects. -/
def NumbersIntact (rt : UploadRuntime) (planType : String) (docs : List (List (String × Json))) :
    Prop :=
  ∀ items skipped, uploadItems rt planType docs = .ok (items, skipped) →
    List.Forall₂ SameFields (docs.filter fun doc => importable rt (decodeRecord rt doc)) items

/-- An integer that is decoded and printed as it is: it is the number that `encoding/json` prints
for its nearest `float64`. -/
def Survives (rt : UploadRuntime) (v : ℤ) : Prop := rt.formatDouble (nearestDouble v) = v

/-- Where `encoding/json` prints the nearest `float64` exactly, an integer survives exactly if it is
a `float64`. -/
theorem survives_iff_of_exact {v : ℤ} (h : rt.formatDouble (nearestDouble v) = nearestDouble v) :
    Survives rt v ↔ nearestDouble v = v := by
  rw [Survives, h, Int.cast_inj]

/-- The upload is rejected: the plan is invalid, or a number is out of range. -/
def UploadRejected (planType : String) (docs : List (List (String × Json))) : Prop :=
  (∃ message, normalizeCredentialPlanType planType = .error message) ∨ docs.all decodable = false

/-- The data of an item denote the values of the object exactly if its numbers survive. -/
theorem sameFields_iff (hints : ∀ q ∈ Json.fieldsNumbers doc, q.den = 1) :
    SameFields doc (itemOfRecord rt plan (decodeRecord rt doc)) ↔
      ∀ name j, name ≠ "email" → name ≠ "plan_type" → (Json.obj doc).fields.lookup name = some j →
        ∀ q ∈ Json.numbers j, Survives rt q.num := by
  -- A number of the object is decoded to a `float64` and written from it.
  have hsurvives : ∀ q ∈ Json.fieldsNumbers doc,
      (rt.formatDouble ∘ decodeNumber rt) q = q ↔ Survives rt q.num := by
    intro q hq
    have hden := hints q hq
    have hcast : ((q.num : ℤ) : ℚ) = q := Rat.coe_int_num_of_den_eq_one hden
    unfold Survives decodeNumber
    rw [Function.comp_apply, if_pos hden, hcast]
  have hlookup : ∀ name, name ≠ "email" → name ≠ "plan_type" →
      (itemOfRecord rt plan (decodeRecord rt doc)).data.fields.lookup name =
        ((Json.obj doc).fields.lookup name).map
          (Json.mapNumbers (rt.formatDouble ∘ decodeNumber rt)) := by
    intro name hemail hplan
    refine (fields_marshalRecord rt plan (canonical_decodeRecord rt doc) name).trans ?_
    rw [if_neg hplan, if_neg hemail]
    unfold decodeRecord
    rw [Json.lookup_fieldsMapNumbers, Option.map_map]
    refine congrArg (fun f => Option.map f _) (funext fun j => ?_)
    exact Json.mapNumbers_mapNumbers j
  -- Every number of a field is one of the object.
  have hin : ∀ name j, (Json.obj doc).fields.lookup name = some j → ∀ q ∈ Json.numbers j,
      q ∈ Json.fieldsNumbers doc := by
    intro name j hj q hq
    have hmem := Json.mem_fieldsNumbers_of_lookup hj hq
    rcases Json.mem_fieldsNumbers_fieldsValue doc [] hmem with hq | hq
    · exact hq
    · cases hq
  constructor
  · intro h name j hemail hplan hj q hq
    have hsame := h name hemail hplan
    rw [hlookup name hemail hplan, hj, Option.map_some, Option.some.injEq,
      Json.mapNumbers_eq_self_iff] at hsame
    exact (hsurvives q (hin name j hj q hq)).mp (hsame q hq)
  · intro h name hemail hplan
    rw [hlookup name hemail hplan]
    cases hj : (Json.obj doc).fields.lookup name with
    | none => rfl
    | some j =>
      refine congrArg some ((Json.mapNumbers_eq_self_iff j).mpr fun q hq => ?_)
      exact (hsurvives q (hin name j hj q hq)).mpr (h name j hemail hplan hj q hq)

/-- The items of an upload are made of the objects that can be imported. -/
theorem uploadItems_ok {items : List CredentialItem} {skipped : ℕ}
    (h : uploadItems rt planType docs = .ok (items, skipped)) : ∃ plan,
    items = (docs.filter fun doc => importable rt (decodeRecord rt doc)).map fun doc =>
      itemOfRecord rt plan (decodeRecord rt doc) := by
  unfold uploadItems at h
  split at h
  · cases h
  · rename_i plan hplan
    split_ifs at h
    obtain h := Except.ok.inj h
    rw [normalizeCredentials_importable, Prod.mk.injEq, List.filter_map, List.map_map] at h
    exact ⟨plan, h.1.symm⟩

/-- An upload has items unless it is rejected. -/
theorem uploadItems_of_not_rejected (rt : UploadRuntime) (h : ¬ UploadRejected planType docs) :
    ∃ items skipped, uploadItems rt planType docs = .ok (items, skipped) := by
  unfold UploadRejected at h
  rw [not_or, Bool.not_eq_false] at h
  unfold uploadItems
  cases hplan : normalizeCredentialPlanType planType with
  | error message => exact absurd ⟨message, hplan⟩ h.1
  | ok plan => exact ⟨_, _, if_pos h.2⟩

/-- An upload that is rejected has no items that could be imported. -/
theorem uploadItems_of_rejected (rt : UploadRuntime) (h : UploadRejected planType docs)
    (items : List CredentialItem) (skipped : ℕ) :
    uploadItems rt planType docs ≠ .ok (items, skipped) := by
  intro hok
  unfold uploadItems at hok
  rcases h with ⟨message, hmessage⟩ | hdecode
  · rw [hmessage] at hok
    cases hok
  · split at hok
    · cases hok
    · rw [if_neg (by simp [hdecode])] at hok
      cases hok

/-- For every upload of objects whose numbers are integers, however `encoding/json` prints a
`float64`: all items denote the values of their objects exactly if the upload is rejected, or each
number outside of the email and the plan of an object that can be imported is the number that is
printed for its nearest `float64`. -/
theorem upload_numbers_intact_iff
    (hints : ∀ doc ∈ docs, ∀ q ∈ Json.fieldsNumbers doc, q.den = 1) :
    NumbersIntact rt planType docs ↔ UploadRejected planType docs ∨
      ∀ doc ∈ docs, importable rt (decodeRecord rt doc) = true →
        ∀ name j, name ≠ "email" → name ≠ "plan_type" →
          (Json.obj doc).fields.lookup name = some j →
          ∀ q ∈ Json.numbers j, Survives rt q.num := by
  -- The items are made of the objects that can be imported, whatever the plan is.
  have hforall : ∀ plan, List.Forall₂ SameFields
      (docs.filter fun doc => importable rt (decodeRecord rt doc))
      ((docs.filter fun doc => importable rt (decodeRecord rt doc)).map fun doc =>
        itemOfRecord rt plan (decodeRecord rt doc)) ↔
      ∀ doc ∈ docs, importable rt (decodeRecord rt doc) = true →
        ∀ name j, name ≠ "email" → name ≠ "plan_type" →
          (Json.obj doc).fields.lookup name = some j →
          ∀ q ∈ Json.numbers j, Survives rt q.num := by
    intro plan
    rw [List.forall₂_map_right_iff, List.forall₂_same]
    constructor
    · intro h doc hdoc himportable
      exact (sameFields_iff (hints doc hdoc)).mp
        (h doc (List.mem_filter.mpr ⟨hdoc, himportable⟩))
    · intro h doc hdoc
      obtain ⟨hmem, himportable⟩ := List.mem_filter.mp hdoc
      exact (sameFields_iff (hints doc hmem)).mpr (h doc hmem himportable)
  constructor
  · intro h
    by_cases hrejected : UploadRejected planType docs
    · exact Or.inl hrejected
    · obtain ⟨items, skipped, hok⟩ := uploadItems_of_not_rejected rt hrejected
      obtain ⟨plan, rfl⟩ := uploadItems_ok hok
      exact Or.inr ((hforall plan).mp (h _ _ hok))
  · rintro (hrejected | h) items skipped hok
    · exact absurd hok (uploadItems_of_rejected rt hrejected items skipped)
    · obtain ⟨plan, rfl⟩ := uploadItems_ok hok
      exact (hforall plan).mpr h

/-- An upload of one record that has an account number of 64 bits. -/
def accountUpload (account : ℤ) : List (List (String × Json)) :=
  [[("email", .str "a@example.com"), ("account", .num account)]]

/-- The fields of such an upload are sorted. -/
theorem fields_accountUpload (account : ℤ) :
    (Json.obj [("email", .str "a@example.com"), ("account", .num account)]).fields =
      [("account", .num account), ("email", .str "a@example.com")] := rfl

/-- The number 2^53 is intact after an upload, as it has no more bits than a double. -/
theorem upload_numbers_intact_power : NumbersIntact .simple "pro" (accountUpload (2 ^ 53)) := by
  have hints : ∀ doc ∈ accountUpload (2 ^ 53), ∀ q ∈ Json.fieldsNumbers doc, q.den = 1 := by
    decide
  refine (upload_numbers_intact_iff hints).mpr (Or.inr ?_)
  intro doc hdoc _ name j hemail _ hj q hq
  obtain rfl := List.mem_singleton.mp hdoc
  rw [fields_accountUpload] at hj
  by_cases hname : name = "account"
  · rw [hname, Json.lookup_cons_self] at hj
    obtain rfl := Option.some.inj hj
    obtain rfl := List.mem_singleton.mp hq
    have hdouble : nearestDouble (2 ^ 53) = 2 ^ 53 := by decide +kernel
    have hnum : (((2 ^ 53 : ℤ) : ℚ)).num = 2 ^ 53 := Rat.num_intCast _
    rw [survives_iff_of_exact rfl, hnum, hdouble]
  · rw [Json.lookup_cons_of_ne hname, Json.lookup_cons_of_ne hemail] at hj
    cases hj

/-- The number 2^53 + 1 becomes 2^53. -/
theorem upload_number_rounded : ¬ NumbersIntact .simple "pro" (accountUpload (2 ^ 53 + 1)) := by
  intro h
  have hrejected : ¬ UploadRejected "pro" (accountUpload (2 ^ 53 + 1)) := by
    rintro (⟨message, hmessage⟩ | hdecode)
    · cases hmessage
    · have hall : (accountUpload (2 ^ 53 + 1)).all decodable = true := by decide +kernel
      rw [hall] at hdecode
      cases hdecode
  obtain ⟨items, skipped, hok⟩ := uploadItems_of_not_rejected .simple hrejected
  obtain ⟨plan, rfl⟩ := uploadItems_ok hok
  have himportable : ∀ doc ∈ accountUpload (2 ^ 53 + 1),
      importable .simple (decodeRecord .simple doc) = true := by
    decide +kernel
  have hsame := h _ _ hok
  rw [List.filter_eq_self.mpr himportable] at hsame
  have hfields := (List.forall₂_cons.mp hsame).1
  have hints : ∀ q ∈ Json.fieldsNumbers
      [("email", .str "a@example.com"), ("account", .num ((2 ^ 53 + 1 : ℤ) : ℚ))], q.den = 1 := by
    decide
  have hsurvives := (sameFields_iff hints).mp hfields "account"
    (.num ((2 ^ 53 + 1 : ℤ) : ℚ)) (by decide) (by decide) rfl _ (List.mem_singleton.mpr rfl)
  have hdouble : nearestDouble (2 ^ 53 + 1) = 2 ^ 53 := by decide +kernel
  have hnum : ((2 ^ 53 + 1 : ℤ) : ℚ).num = 2 ^ 53 + 1 := Rat.num_intCast _
  rw [survives_iff_of_exact rfl, hnum, hdouble] at hsurvives
  norm_num at hsurvives

end CdkSystem
