import CdkSystem.Proof.Running

/-!
# Created batches

A request without validation errors makes a row that satisfies the constraints on `batches`
(`validated_batch_checks`), and codes of the prefix and random characters of the alphabet
(`generateCodes_shape`), which satisfy the constraint on `codes`. There are more such codes than a
batch can have, so the loop that draws them always has one left to find (`exists_new_code`).

The checks of the validation count bytes where the columns count characters, and they look at texts
from which other spaces were removed than PostgreSQL removes. Neither matters: a text has at most as
many characters as bytes (`length_le_byteLength`), and a text without spaces at its ends has none
for `btrim` either. The transaction that creates a batch inserts all rows in one commit, so in every
interleaving the batch is there with all its codes or not at all (`batch_complete_or_absent`).
-/

namespace CdkSystem

open RowLock Relational

/-! ## Generated codes -/

/-- A text is the prefix with so many characters of the alphabet behind it. -/
def CodeShape (codePrefix : String) (length : ℕ) (code : String) : Prop :=
  ∃ cs : List Char, code = codePrefix ++ String.ofList cs ∧ cs.length = length ∧
    ∀ c ∈ cs, c ∈ alphabet

/-- The random characters are of the alphabet. -/
theorem getD_alphabet_mem (d : Fin 31) : alphabet.getD d 'A' ∈ alphabet := by
  revert d
  decide

/-- A drawn code has its length and characters of the alphabet. -/
theorem randomCode_shape {length : ℕ} {draws rest : List (Fin 31)} {cs : List Char}
    (h : randomCode length draws = some (cs, rest)) :
    cs.length = length ∧ ∀ c ∈ cs, c ∈ alphabet := by
  induction length generalizing draws cs with
  | zero =>
    rw [randomCode, Option.some.injEq, Prod.mk.injEq] at h
    rw [← h.1]
    exact ⟨rfl, by simp⟩
  | succ length ih =>
    cases draws with
    | nil => cases h
    | cons d draws =>
      rw [randomCode, Option.map_eq_some_iff] at h
      obtain ⟨⟨cs', rest'⟩, hcs', he⟩ := h
      obtain ⟨rfl, rfl⟩ := Prod.mk.inj he
      obtain ⟨hlen, hmem⟩ := ih hcs'
      refine ⟨by rw [List.length_cons, hlen], fun c hc => ?_⟩
      rcases List.mem_cons.mp hc with rfl | hc
      · exact getD_alphabet_mem d
      · exact hmem c hc

/-- The characters of the alphabet are upper-case letters and digits. -/
theorem upper_of_mem_alphabet : ∀ c ∈ alphabet, (c.isUpper || c.isDigit) = true := by
  have hall : (alphabet.all fun c => c.isUpper || c.isDigit) = true := by decide
  exact List.all_eq_true.mp hall

section CodeShape

variable {codePrefix code : String} {length : ℕ}

/-- A code with an upper-case prefix consists of upper-case letters and digits. -/
theorem CodeShape.upper (h : CodeShape codePrefix length code)
    (hfront : upperAlphanumeric codePrefix = true) : upperAlphanumeric code = true := by
  obtain ⟨cs, rfl, -, hcs⟩ := h
  unfold upperAlphanumeric at hfront ⊢
  rw [String.toList_append, String.toList_ofList, List.all_append, hfront, Bool.true_and,
    List.all_eq_true]
  exact fun c hc => upper_of_mem_alphabet c (hcs c hc)

/-- A code of the shape is what `NormalizeCode` makes of it. -/
theorem CodeShape.normalizeCode_eq (h : CodeShape codePrefix length code)
    (hfront : upperAlphanumeric codePrefix = true) : normalizeCode code = code :=
  CdkSystem.normalizeCode_eq (h.upper hfront)
    (filter_of_upper (List.all_eq_true.mp (h.upper hfront)))

/-- A code of a short prefix and not too many characters satisfies the constraint on `codes`. -/
theorem CodeShape.validCode (h : CodeShape codePrefix length code)
    (hfront : upperAlphanumeric codePrefix = true ∧ codePrefix.length ≤ 8)
    (hlength : 8 ≤ length ∧ length ≤ 20) : validCode code = true := by
  have hupper := h.upper hfront.1
  obtain ⟨cs, rfl, hcs, -⟩ := h
  have hlen : (codePrefix ++ String.ofList cs).length = codePrefix.length + length := by
    rw [String.length_append, String.length_ofList, hcs]
  unfold CdkSystem.validCode
  rw [hupper, hlen]
  simp only [Bool.true_and, Bool.and_eq_true, decide_eq_true_eq]
  omega

end CodeShape

/-- What the loop of `generateCodes` keeps: the codes are of the shape and differ, and it never has
more codes than it needs. -/
structure Generating (codePrefix : String) (length count : ℕ) (codes : List String) : Prop where
  shape : ∀ code ∈ codes, CodeShape codePrefix length code
  nodup : codes.Nodup
  le : codes.length ≤ count

/-- The codes that the loop returns are as many as needed. -/
theorem generateCodesFrom_spec {codePrefix : String} {length count fuel : ℕ} {draws : List (Fin 31)}
    {codes result : List String} (hcodes : Generating codePrefix length count codes)
    (h : generateCodesFrom codePrefix length count fuel codes draws = some result) :
    Generating codePrefix length count result ∧ result.length = count := by
  -- The induction is on the number of draws; what was generated so far has the shape.
  induction fuel generalizing codes draws with
  | zero =>
    rw [generateCodesFrom] at h
    split_ifs at h with hdone
    obtain rfl := Option.some.inj h
    exact ⟨hcodes, le_antisymm hcodes.le hdone⟩
  | succ fuel ih =>
    rw [generateCodesFrom] at h
    split_ifs at h with hdone
    · obtain rfl := Option.some.inj h
      exact ⟨hcodes, le_antisymm hcodes.le hdone⟩
    · dsimp only at h
      cases hdraw : randomCode length draws with
      | none =>
        rw [hdraw] at h
        cases h
      | some r =>
        obtain ⟨cs, rest⟩ := r
        rw [hdraw] at h
        dsimp only at h
        -- A code that was drawn before is drawn again.
        split_ifs at h with hseen
        · exact ih hcodes h
        · obtain ⟨hlen, hmem⟩ := randomCode_shape hdraw
          refine ih ⟨fun code hcode => ?_, ?_, ?_⟩ h
          · rcases List.mem_append.mp hcode with hcode | hcode
            · exact hcodes.shape code hcode
            · exact ⟨cs, List.mem_singleton.mp hcode, hlen, hmem⟩
          · rw [List.nodup_append]
            refine ⟨hcodes.nodup, by simp, ?_⟩
            rintro a ha b hb rfl
            exact hseen (List.mem_singleton.mp hb ▸ ha)
          · rw [List.length_append, List.length_singleton]
            omega

/-- The codes of `generateCodes` are of the shape, differ, and are as many as needed. -/
theorem generateCodes_shape {codePrefix : String} {length count : ℕ} {draws : List (Fin 31)}
    {codes : List String} (h : generateCodes codePrefix length count draws = some codes) :
    Generating codePrefix length count codes ∧ codes.length = count :=
  generateCodesFrom_spec ⟨by simp, by simp, by simp⟩ h

/-- The characters at different places of the alphabet differ. -/
theorem getD_alphabet_injective : Function.Injective fun d : Fin 31 => alphabet.getD d 'A' := by
  decide

/-- The code that is drawn with the random indices `draws`. -/
theorem randomCode_self (draws : List (Fin 31)) :
    randomCode draws.length draws = some (draws.map fun d : Fin 31 => alphabet.getD d 'A', []) := by
  induction draws with
  | nil => rfl
  | cons d draws ih =>
    rw [List.length_cons, randomCode, ih]
    rfl

/-- Among fewer than `31 ^ length` codes, one of the shape is missing, and it can be drawn. -/
theorem exists_new_code {codePrefix : String} {length : ℕ} {codes : List String}
    (h : codes.length < 31 ^ length) :
    ∃ draws cs, randomCode length draws = some (cs, []) ∧
      codePrefix ++ String.ofList cs ∉ codes := by
  let code : (Fin length → Fin 31) → String := fun f =>
    codePrefix ++ String.ofList ((List.ofFn f).map fun d : Fin 31 => alphabet.getD d 'A')
  have hinj : Function.Injective code := by
    intro f g hfg
    have hlist := String.ofList_injective (String.append_right_inj codePrefix |>.mp hfg)
    exact List.ofFn_injective (List.map_injective_iff.mpr getD_alphabet_injective hlist)
  -- The codes of the shape are too many to be all among them.
  have hcard : codes.toFinset.card < (Finset.univ.image code).card := by
    rw [Finset.card_image_of_injective _ hinj, Finset.card_univ, Fintype.card_fun, Fintype.card_fin,
      Fintype.card_fin]
    exact lt_of_le_of_lt (List.toFinset_card_le codes) h
  obtain ⟨new, hnew, hnot⟩ := Finset.exists_mem_notMem_of_card_lt_card hcard
  obtain ⟨f, -, rfl⟩ := Finset.mem_image.mp hnew
  have hdraw := randomCode_self (List.ofFn f)
  rw [List.length_ofFn] at hdraw
  exact ⟨_, _, hdraw, fun hmem => hnot (List.mem_toFinset.mpr hmem)⟩

/-! ## The row of a batch -/

/-- A list of errors is empty only if the condition of each error fails. -/
theorem errorIf_eq_nil {condition : Bool} {message : String} :
    errorIf condition message = [] ↔ condition = false := by
  cases condition <;> simp [errorIf]

/-- A text has at least as many bytes as characters. -/
theorem length_le_byteLength (s : String) : s.length ≤ byteLength s := by
  have h : byteLength s = (encodeRunes s.toList).length := by
    unfold byteLength encodeRunes
    rw [← String.size_toByteArray, ← String.utf8Encode_toList, List.utf8Encode]
    simp
  rw [h, ← String.length_toList]
  exact length_le_length_encodeRunes _

/-- Trimming a text twice is trimming it once. -/
theorem trimSpace_trimSpace (s : String) : trimSpace (trimSpace s) = trimSpace s :=
  trimFunc_trimFunc (fun _ h => h) s

/-- SQL's `TRIM`, which removes only spaces, removes nothing from a trimmed text. -/
theorem trim_spaces_trimSpace (s : String) : trimFunc (· = ' ') (trimSpace s) = trimSpace s := by
  refine trimFunc_trimFunc (fun c h => ?_) s
  rw [of_decide_eq_true h]
  decide

/-- The characters that the handler accepts in a prefix are those of the constraint. -/
theorem isASCIIAlphanumeric_eq (s : String) : isASCIIAlphanumeric s = upperAlphanumeric s := by
  unfold isASCIIAlphanumeric upperAlphanumeric
  congr 1
  funext c
  delta Char.isUpper Char.isDigit
  simp only [Char.le_def, ge_iff_le, Bool.decide_and]

/-- What a request without validation errors satisfies, in characters. -/
structure CreateBatchRequest.Accepted (req : CreateBatchRequest) : Prop where
  name : trimSpace req.name ≠ "" ∧ req.name.length ≤ 200
  description : req.description.length ≤ 1000
  codeLength : 8 ≤ req.codeLength ∧ req.codeLength ≤ 20
  count : 1 ≤ req.count ∧ req.count ≤ 10000
  maxUses : 1 ≤ req.maxUsesPerCode ∧ req.maxUsesPerCode ≤ 100000
  maxRedeems : 1 ≤ req.maxRedeemsPerUser ∧ req.maxRedeemsPerUser ≤ 100000
  codePrefix : upperAlphanumeric req.codePrefix = true ∧ req.codePrefix.length ≤ 8
  webhookURL : req.webhookURL.length ≤ 2000
  plan : req.assignCredential = true → 1 ≤ (trimSpace req.credentialPlanType).length ∧
    (trimSpace req.credentialPlanType).length ≤ 100
  noPlan : req.assignCredential = false → req.credentialPlanType.length ≤ 100

/-- The URL of a webhook without errors has at most 2000 characters. -/
theorem length_webhookURL {rt : Runtime} {req : CreateBatchRequest}
    (h : webhookErrors rt req = []) : req.webhookURL.length ≤ 2000 := by
  unfold webhookErrors at h
  split_ifs at h with hempty hlong
  · rw [hempty]
    decide
  · exact (length_le_byteLength _).trans (not_lt.mp hlong)

/-- A plan without errors has at most 100 characters, and at least one if it is needed. -/
theorem length_plan {req : CreateBatchRequest} (h : planErrors req = []) :
    (req.assignCredential = true → 1 ≤ (trimSpace req.credentialPlanType).length ∧
      (trimSpace req.credentialPlanType).length ≤ 100) ∧
    (req.assignCredential = false → req.credentialPlanType.length ≤ 100) := by
  unfold planErrors at h
  split_ifs at h with hassign
  · refine ⟨fun _ => ?_, fun hno => by rw [hassign] at hno; cases hno⟩
    unfold normalizeCredentialPlanType at h
    split_ifs at h with hlength
    omega
  · rw [errorIf_eq_nil, decide_eq_false_iff_not] at h
    exact ⟨fun hyes => absurd hyes hassign, fun _ => not_lt.mp h⟩

/-- A request without validation errors is accepted. -/
theorem accepted_of_validate {rt : Runtime} {req : CreateBatchRequest}
    (h : validateCreateBatch rt req = []) : req.Accepted := by
  simp only [validateCreateBatch, List.append_eq_nil_iff, errorIf_eq_nil, decide_eq_false_iff_not,
    Bool.and_eq_false_iff, Bool.or_eq_false_iff, not_lt, not_not, Bool.not_eq_false'] at h
  obtain ⟨⟨⟨⟨⟨⟨⟨⟨⟨⟨⟨⟨hname, hlong⟩, hdescription⟩, hlength⟩, hcount⟩, huses⟩, hredeems⟩, hbytes⟩,
    hformat⟩, hwebhook⟩, -⟩, hplan⟩, -⟩ := h
  have hfront : upperAlphanumeric req.codePrefix = true := by
    rcases hformat with hempty | hformat
    · rw [hempty]
      rfl
    · rwa [← isASCIIAlphanumeric_eq]
  exact ⟨⟨hname, hlong⟩, hdescription, hlength, hcount, huses, hredeems,
    ⟨hfront, (length_le_byteLength _).trans hbytes⟩, length_webhookURL hwebhook,
    (length_plan hplan).1, (length_plan hplan).2⟩

/-- The row of a request without validation errors satisfies the constraints on `batches`. -/
theorem validated_row_checks {rt : Runtime} {request : CreateBatchRequest}
    (h : validateCreateBatch rt request.normalized = []) (secret : String)
    (expiresAt : Option Time) (payload : Json) (id : ℕ) :
    ((CreateBatchRequest.params rt { request.normalized with webhookSecret := secret }
      expiresAt).row payload id).Checks := by
  have ha := accepted_of_validate h
  have htrim : trimSpace request.normalized.name = request.normalized.name :=
    trimSpace_trimSpace request.name
  have hplan : trimSpace request.normalized.credentialPlanType =
      request.normalized.credentialPlanType := trimSpace_trimSpace request.credentialPlanType
  have hupper := toUpper_of_upper ha.codePrefix.1
  refine
    { name := ⟨?_, ha.name.2⟩
      description := ha.description
      codePrefix := ?_
      codeLength := ha.codeLength
      maxUses := ha.maxUses
      maxRedeems := ha.maxRedeems
      webhookUrl := ha.webhookURL
      plan := ?_
      planRequired := fun hassign => ?_ }
  · -- Where the columns count characters, the validation has counted bytes, which are no fewer.
    have hne : request.normalized.name ≠ "" := htrim ▸ ha.name.1
    exact Nat.pos_of_ne_zero fun hzero => hne (String.length_eq_zero_iff.mp hzero)
  · change upperAlphanumeric (toUpper request.normalized.codePrefix) = true ∧
      (toUpper request.normalized.codePrefix).length ≤ 8
    rw [hupper]
    exact ha.codePrefix
  · change (trimSpace request.normalized.credentialPlanType).length ≤ 100
    cases hassign : request.normalized.assignCredential with
    | true => exact (ha.plan hassign).2
    | false =>
      rw [hplan]
      exact ha.noPlan hassign
  · change 0 < (trimFunc (· = ' ') (trimSpace request.normalized.credentialPlanType)).length
    rw [trim_spaces_trimSpace]
    exact (ha.plan hassign).1

/-- The codes of a request without validation errors satisfy the constraint on `codes`. -/
theorem CreateBatchRequest.Accepted.validCode {req : CreateBatchRequest} (h : req.Accepted)
    {code : String} (hcode : CodeShape (toUpper req.codePrefix) req.codeLength.toNat code) :
    validCode code = true := by
  have hlength := h.codeLength
  rw [toUpper_of_upper h.codePrefix.1] at hcode
  exact hcode.validCode h.codePrefix (by omega)

/-- When the handler finds no error in the request that it has normalised, then whatever the secret,
the time, the payload and the `id`, the row that is inserted satisfies all constraints on `batches`,
and so do the generated codes the one on `codes`. -/
theorem validated_satisfies_constraints {rt : Runtime} {request : CreateBatchRequest}
    (h : validateCreateBatch rt request.normalized = []) :
    (∀ (secret : String) (expiresAt : Option Time) (payload : Json) (id : ℕ),
      ((CreateBatchRequest.params rt { request.normalized with webhookSecret := secret }
        expiresAt).row payload id).Checks) ∧
    ∀ (draws : List (Fin 31)) (codes : List String),
      generateCodes (toUpper request.normalized.codePrefix) request.codeLength.toNat
        request.count.toNat draws = some codes → ∀ code ∈ codes, validCode code = true := by
  refine ⟨validated_row_checks h, fun draws codes hcodes code hcode => ?_⟩
  exact (accepted_of_validate h).validCode ((generateCodes_shape hcodes).1.shape code hcode)

/-- A request with spaces around its texts and a prefix in lower case. -/
def spacedRequest : CreateBatchRequest :=
  ⟨" b ", "", "{}", " ab1 ", 8, 2, 1, 1, none, "", "", true, "\t plus \n"⟩

/-- The spaced request has no errors, so its row satisfies the constraints. -/
theorem validated_satisfies_constraints_spaced :
    validateCreateBatch .simple spacedRequest.normalized = [] ∧
      ((CreateBatchRequest.params .simple { spacedRequest.normalized with webhookSecret := "" }
        none).row (.obj []) 1).Checks :=
  have h : validateCreateBatch .simple spacedRequest.normalized = [] := by decide
  ⟨h, (validated_satisfies_constraints h).1 "" none (.obj []) 1⟩

/-! ## The commit that creates a batch -/

/-- New codes with distinct `id`s are added at the end of the table. -/
theorem rows_codes_created {cs : List Code} {T : Tables} (hnew : ∀ c ∈ cs, T.codes.get? c.id = none)
    (hids : (cs.map Code.id).Nodup) :
    (postgres.applyAll T (cs.map .createCode)).codes.rows = T.codes.rows ++ cs := by
  induction cs generalizing T with
  | nil => simp [Dbms.applyAll]
  | cons c cs ih =>
    have hc : T.codes.get? (key c) = none := hnew c (by simp)
    rw [List.map_cons, List.nodup_cons] at hids
    have hrest : ∀ c' ∈ cs, (T.apply (.createCode c)).codes.get? c'.id = none := by
      intro c' hc'
      have hne : key c ≠ c'.id := fun he =>
        hids.1 (List.mem_map.mpr ⟨c', hc', he.symm⟩)
      exact (Table.get?_insert_of_ne hne).trans (hnew c' (by simp [hc']))
    have hrows : (T.apply (.createCode c)).codes.rows = T.codes.rows ++ [c] :=
      Table.rows_insert hc
    rw [List.map_cons, Dbms.applyAll_cons]
    change (postgres.applyAll (T.apply (.createCode c)) (cs.map .createCode)).codes.rows = _
    rw [ih hrest hids.2, hrows, List.append_assoc, List.singleton_append]

variable {ι : Type} {start : Start ι} {e : Commit ι Tables}

/-- A commit adds one batch with as many codes as were asked for, and nothing else. -/
structure AddsBatch (e : Commit ι Tables) (request : CreateBatchRequest) (b : Batch)
    (cs : List Code) : Prop where
  batches : e.after.batches.rows = e.before.batches.rows ++ [b]
  codes : e.after.codes.rows = e.before.codes.rows ++ cs
  others : e.after = { e.before with batches := e.after.batches, codes := e.after.codes }
  count : (cs.length : ℤ) = request.count
  ofBatch : ∀ c ∈ e.after.codes, c.batchId = b.id ↔ c ∈ cs
  distinct : (cs.map Code.code).Nodup
  new : ∀ c ∈ cs, ¬ e.before.HasCodeText c.code
  shape : ∀ c ∈ cs,
    CodeShape (toUpper request.normalized.codePrefix) request.codeLength.toNat c.code
  unused : ∀ c ∈ cs, c.useCount = 0
  normalized : ∀ c ∈ cs, normalizeCode c.code = c.code
  valid : ∀ c ∈ cs, validCode c.code = true

/-- The codes of a created batch are those that were generated. -/
theorem BatchCreated.addsBatch {rt : Runtime} {request : CreateBatchRequest}
    {draws : List (Fin 31)} {b : Batch} {cs : List Code} (h : BatchCreated rt request draws e b cs)
    (hint : e.before.Integrity) : AddsBatch e request b cs := by
  have ha := accepted_of_validate h.batch.accepted
  have hfront : upperAlphanumeric (toUpper request.normalized.codePrefix) = true := by
    rw [toUpper_of_upper ha.codePrefix.1]
    exact ha.codePrefix.1
  obtain ⟨hgen, hlength⟩ := generateCodes_shape h.generated
  have hshape := fun c (hc : c ∈ cs) => hgen.shape c.code (List.mem_map_of_mem hc)
  -- The commit appends one batch and its codes, and touches no other table.
  have hbatches : e.after.batches = e.before.batches.insert b := by
    rw [h.after, Dbms.applyAll_cons, applyAll_map_same Tables.batches fun _ _ => rfl]
    rfl
  have hbrows : e.after.batches.rows = e.before.batches.rows ++ [b] := by
    have hnew : e.before.batches.get? (key b) = none := h.batch.new
    rw [hbatches, Table.rows_insert hnew]
  have hcodes : e.after.codes.rows = e.before.codes.rows ++ cs := by
    rw [h.after, Dbms.applyAll_cons]
    exact rows_codes_created (T := e.before.apply (.createBatch b)) (fun c hc => (h.codes c hc).new)
      h.ids
  have hothers : e.after =
      { e.before with batches := e.after.batches, codes := e.after.codes } := by
    have hsame : (e.after.credentials, e.after.keys, e.after.redemptions, e.after.outbox) =
        (e.before.credentials, e.before.keys, e.before.redemptions, e.before.outbox) := by
      rw [h.after, Dbms.applyAll_cons]
      exact applyAll_map_same (fun T => (T.credentials, T.keys, T.redemptions, T.outbox))
        (fun _ _ => rfl) cs _
    simp only [Prod.mk.injEq] at hsame
    obtain ⟨hcredentials, hkeys, hredemptions, houtbox⟩ := hsame
    dsimp only
    rw [← hcredentials, ← hkeys, ← hredemptions, ← houtbox]
  refine ⟨hbrows, hcodes, hothers, ?_, ?_, h.texts, fun c hc => (h.codes c hc).text, hshape,
    fun c hc => (h.codes c hc).useCount, fun c hc => (hshape c hc).normalizeCode_eq hfront, h.valid⟩
  · have hcount := ha.count
    rw [List.length_map] at hlength
    change 1 ≤ request.count ∧ request.count ≤ 10000 at hcount
    omega
  · intro c hc
    rw [Table.mem_iff, hcodes, List.mem_append] at hc
    constructor
    · -- An old code is of an old batch, and the new batch's number is new.
      intro hid
      refine hc.resolve_left fun hold => ?_
      obtain ⟨b', hb'⟩ := hint.codeBatch c hold
      rw [hid, h.batch.new] at hb'
      cases hb'
    · exact fun hnew => (h.codes c hnew).batch

variable [DecidableEq ι] {i : ι} {request : CreateBatchRequest} {draws : List (Fin 31)}

/-- A creation of a batch that has returned has answered with an error and changed nothing, or it
has added a whole batch in one commit and changed nothing else. -/
theorem createBatch_whole {as : List (Action ι Choice)} {s : State ι} {r : Result}
    (h : start.run as = some s) (hcall : start.calls i = .createBatch request draws)
    (hp : s.progs i = some (.ret r)) :
    ∃ reply, r = .reply reply ∧
      ((reply.status ≠ 200 ∧ ∀ e ∈ s.db.ownLog i, e.after = e.before) ∨
        reply.status = 200 ∧ ∃ e idle b cs, s.db.ownLog i = idle ++ [e] ∧
          (∀ e' ∈ idle, e'.after = e'.before) ∧ AddsBatch e request b cs) := by
  obtain ⟨reply, rfl, houtcome⟩ := Start.createBatch_returned h hcall hp
  refine ⟨reply, rfl, ?_⟩
  cases houtcome with
  | @created e b cs idle hcreated hlog hidle =>
    have hmem : e ∈ s.db.log := by
      have : e ∈ s.db.ownLog i := by rw [hlog]; simp
      exact List.mem_of_mem_filter this
    have hint : e.before.Integrity := (Start.history h).integrity (Or.inr ⟨e, hmem, rfl⟩)
    exact Or.inr ⟨rfl, e, idle, b, cs, hlog, hidle, hcreated.addsBatch hint⟩
  | refused herror hidle => exact Or.inl ⟨herror, hidle⟩

/-- A request without validation errors always has a code left to find. -/
theorem CreateBatchRequest.Accepted.exists_new_code {req : CreateBatchRequest} (h : req.Accepted)
    (codePrefix : String) {codes : List String} (hlt : codes.length < req.count.toNat) :
    ∃ draws cs, randomCode req.codeLength.toNat draws = some (cs, []) ∧
      codePrefix ++ String.ofList cs ∉ codes := by
  have hcount := h.count
  have hlength := h.codeLength
  refine CdkSystem.exists_new_code (lt_of_lt_of_le (b := 31 ^ 8) (by omega) ?_)
  exact Nat.pow_le_pow_right (by omega) (by omega)

/-- Every commit of a creation of a batch changes nothing or adds a whole batch. -/
theorem createBatch_commit {log : List (Commit ι Tables)} {T : Tables} (h : History start log T)
    (he : e ∈ log) (hcall : start.calls e.caller = .createBatch request draws) :
    e.after = e.before ∨ ∃ b cs, AddsBatch e request b cs := by
  obtain ⟨log', -, h', htransition⟩ := h.transition he
  rw [hcall] at htransition
  cases htransition with
  | idle after => exact Or.inl after
  | @createdBatch req draws b cs hcreated =>
    exact Or.inr ⟨b, cs, hcreated.addsBatch (h'.integrity (Or.inl rfl))⟩
  | deleted ids hmay after =>
    cases ids with
    | nil => exact Or.inl after
    | cons id ids => exact (hmay id (by simp)).elim

/-- In every interleaving, with whatever statements failing, a creation of a batch is complete or
absent: when it returns it has answered with an error and changed nothing, or it has added one batch
with all its codes, and no commit of it adds a part of a batch. While the loop of `generateCodes`
has fewer codes than it needs, some code of the shape is not among them. -/
theorem batch_complete_or_absent (start : Start ι) (i : ι) (request : CreateBatchRequest)
    (draws : List (Fin 31)) (hcall : start.calls i = .createBatch request draws) :
    (∀ (as : List (Action ι Choice)) (s : State ι) (r : Result), start.run as = some s →
      s.progs i = some (.ret r) → ∃ reply, r = .reply reply ∧
        ((reply.status ≠ 200 ∧ ∀ e ∈ s.db.ownLog i, e.after = e.before) ∨
          reply.status = 200 ∧ ∃ e idle b cs, s.db.ownLog i = idle ++ [e] ∧
            (∀ e' ∈ idle, e'.after = e'.before) ∧ AddsBatch e request b cs)) ∧
    (∀ (as : List (Action ι Choice)) (s : State ι), start.run as = some s →
      ∀ e ∈ s.db.ownLog i, e.after = e.before ∨ ∃ b cs, AddsBatch e request b cs) ∧
    (validateCreateBatch start.rt request.normalized = [] → ∀ codes : List String,
      codes.length < request.count.toNat →
        ∃ draws cs, randomCode request.codeLength.toNat draws = some (cs, []) ∧
          CodeShape (toUpper request.normalized.codePrefix) request.codeLength.toNat
            (toUpper request.normalized.codePrefix ++ String.ofList cs) ∧
          toUpper request.normalized.codePrefix ++ String.ofList cs ∉ codes) := by
  refine ⟨fun as s r h hp => createBatch_whole h hcall hp, fun as s h e he => ?_, ?_⟩
  · obtain ⟨hmem, hcaller⟩ := List.mem_filter.mp he
    have hcall' : start.calls e.caller = .createBatch request draws := by
      rw [of_decide_eq_true hcaller, hcall]
    exact createBatch_commit (Start.history h) hmem hcall'
  · intro hvalid codes hlt
    obtain ⟨draws, cs, hdraw, hnew⟩ := (accepted_of_validate hvalid).exists_new_code
      (toUpper request.normalized.codePrefix) hlt
    exact ⟨draws, cs, hdraw, ⟨cs, rfl, randomCode_shape hdraw⟩, hnew⟩

/-- A request for two codes with the prefix AB. -/
def requestTwo : CreateBatchRequest :=
  ⟨" b ", "", "{}", "ab", 8, 2, 1, 1, none, "", "", false, ""⟩

/-- One call, for which the first code is drawn twice. -/
def createTwo : Start Unit :=
  Start.of (fun _ => .createBatch requestTwo (List.replicate 16 0 ++ List.replicate 8 1)) .empty
    ⟨0, 0, 0, 0, 0⟩ Tables.empty_below Tables.checkIntegrity_empty

/-- The run in which the call that creates two codes comes to its end. -/
def runTwo : List (Action Unit Choice) := List.replicate 5 (.exec () ⟨0, "", .unsent⟩)

/-- The call has created its batch when it returns. -/
theorem batch_complete_or_absent_two :
    ∃ s r, createTwo.run runTwo = some s ∧ s.progs () = some (.ret r) ∧
      ∃ reply, r = .reply reply ∧
        ((reply.status ≠ 200 ∧ ∀ e ∈ s.db.ownLog (), e.after = e.before) ∨
          reply.status = 200 ∧ ∃ e idle b cs, s.db.ownLog () = idle ++ [e] ∧
            (∀ e' ∈ idle, e'.after = e'.before) ∧ AddsBatch e requestTwo b cs) := by
  obtain ⟨s, hs, hp⟩ := Start.result?_eq_some
    (show createTwo.result? runTwo () = some (.reply (respondOK "批次创建成功")) by rfl)
  exact ⟨s, _, hs, hp, (batch_complete_or_absent createTwo () _ _ rfl).1 _ s _ hs hp⟩

/-- The codes that it has created: the one that was drawn twice is there once. -/
example : (createTwo.run runTwo).map (fun s => s.db.tables.codes.rows.map Code.code) =
    some ["ABAAAAAAAA", "ABBBBBBBBB"] := by rfl

end CdkSystem
