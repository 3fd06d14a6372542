import CdkSystem.CodeList
import CdkSystem.Lib.FirstOccurrences

/-!
# The page's list of codes survives a batch

`parseCdkList` returns codes that the server's `NormalizeCode` leaves as they are, each once, so
`BatchRedeem` passes all of them on, except for those that are too long. The items of the others and
of those that fail carry the codes as they were sent, and the page reads exactly these from the text
that it makes of them.

The induction over the codes that the page has read carries which of them were already passed on:
the page has removed what the server would skip as a repetition. What the server does with each code
is left open (`redeemPassed`), so the result holds for every outcome of the batch. That the text
which the page shows next is read as the same codes again is `parseCdkList_intercalate`, since no
code has a separator in it.
-/

namespace CdkSystem

open Occurrences

/-! ## Codes -/

/-- A code as `parseCdkList` returns it: normalized, and without what separates codes. -/
def PageCode (code : String) : Prop := code ≠ "" ∧ upperAlphanumeric code = true

section Codes

variable {code : String} {c : Char}

/-- What `normalizeCdk` returns is empty or a code. -/
theorem pageCode_normalizeCdk {part : String} (h : normalizeCdk part ≠ "") :
    PageCode (normalizeCdk part) := by
  refine ⟨h, List.all_eq_true.mpr fun c hc => ?_⟩
  rw [Bool.or_eq_true]
  exact mem_normalizeCode hc

/-- A code is left as it is by `normalizeCdk` and `NormalizeCode`. -/
theorem PageCode.normalizeCode (h : PageCode code) : normalizeCode code = code :=
  normalizeCode_eq h.2 (filter_of_upper (List.all_eq_true.mp h.2))

/-- The characters of a code are no separators. -/
theorem PageCode.not_isCdkSeparator (h : PageCode code) (hc : c ∈ code.toList) :
    isCdkSeparator c = false :=
  isCdkSeparator_eq_false (Or.inr (toNat_of_upper (List.all_eq_true.mp h.2 c hc)))

/-- A code has no space at its ends. -/
theorem PageCode.trimSpace (h : PageCode code) : trimSpace code = code := by
  have hspace : ∀ c ∈ code.toList, isSpace c = false := by
    intro c hc
    have hnat := toNat_of_upper (List.all_eq_true.mp h.2 c hc)
    simp only [isSpace, List.mem_cons, List.not_mem_nil, or_false, Bool.or_eq_false_iff,
      decide_eq_false_iff_not, Bool.and_eq_false_iff]
    omega
  have hdrop : ∀ cs : List Char, (∀ c ∈ cs, isSpace c = false) → cs.dropWhile isSpace = cs := by
    intro cs hcs
    cases cs with
    | nil => rfl
    | cons c cs => exact List.dropWhile_cons_of_neg (by simp [hcs c List.mem_cons_self])
  unfold CdkSystem.trimSpace trimFunc
  rw [hdrop _ hspace, hdrop _ fun c hc => hspace c (List.mem_reverse.mp hc), List.reverse_reverse,
    String.ofList_toList]

end Codes

/-! ## The list -/

/-- The codes between the separators of a text, with repetitions. -/
def codeParts (value : String) : List String :=
  ((splitRuns isCdkSeparator value.toList).map fun part => normalizeCdk (String.ofList part)).filter
    (· ≠ "")

/-- The loop keeps the first occurrences of the codes that it has not seen. -/
theorem parseParts_eq (seen codes parts : List String) :
    parseParts seen codes parts =
      codes ++ (((parts.map normalizeCdk).filter (· ≠ "")).filter (· ∉ seen)).eraseDups := by
  induction parts generalizing seen codes with
  | nil => exact (List.append_nil codes).symm
  | cons part parts ih =>
    unfold parseParts
    rw [List.map_cons]
    by_cases hempty : normalizeCdk part = ""
    · rw [if_pos (Or.inl hempty), ih, List.filter_cons_of_neg (by simp [hempty])]
    · rw [List.filter_cons_of_pos (by simp [hempty])]
      by_cases hseen : normalizeCdk part ∈ seen
      · rw [if_pos (Or.inr hseen), ih, List.filter_cons_of_neg (by simp [hseen])]
      · have hnot : ¬ (normalizeCdk part = "" ∨ normalizeCdk part ∈ seen) :=
          not_or.mpr ⟨hempty, hseen⟩
        -- A code is not among the seen ones and this one if it is neither seen nor this one.
        have hfilter : ∀ cs : List String,
            cs.filter (· ∉ normalizeCdk part :: seen) =
              (cs.filter (· ∉ seen)).filter fun b => !b == normalizeCdk part := by
          intro cs
          rw [List.filter_filter]
          refine List.filter_congr fun code _ => ?_
          rw [Bool.eq_iff_iff]
          simp [not_or]
        rw [if_neg hnot, ih, List.filter_cons_of_pos (by simp [hseen]), List.eraseDups_cons,
          List.append_assoc, List.singleton_append, hfilter]

/-- `parseCdkList` returns the first occurrences of the codes between the separators. -/
theorem parseCdkList_eq (value : String) : parseCdkList value = (codeParts value).eraseDups := by
  unfold parseCdkList codeParts
  rw [parseParts_eq, List.nil_append, List.map_map]
  congr 1
  exact List.filter_eq_self.mpr fun code _ => by simp

/-- The elements of the list are codes. -/
theorem pageCode_of_mem {value code : String} (h : code ∈ parseCdkList value) : PageCode code := by
  rw [parseCdkList_eq, List.mem_eraseDups] at h
  obtain ⟨hmem, hne⟩ := List.mem_filter.mp h
  obtain ⟨part, -, rfl⟩ := List.mem_map.mp hmem
  exact pageCode_normalizeCdk (by simpa using hne)

/-- A text without separators is one part. -/
theorem splitRuns_of_forall {p : Char → Bool} {part : List Char} (h : ∀ c ∈ part, p c = false) :
    splitRuns p part = [part] := by
  induction part with
  | nil => rfl
  | cons c part ih =>
    have hc : ¬ p c = true := by simp [h c List.mem_cons_self]
    rw [splitRuns, if_neg hc, ih fun d hd => h d (List.mem_cons_of_mem c hd)]

/-- Parts that are joined by a separator are the parts of the result. -/
theorem splitRuns_intercalate {p : Char → Bool} {s : Char} (hs : p s = true)
    {parts : List (List Char)} (hne : parts ≠ [])
    (h : ∀ part ∈ parts, part ≠ [] ∧ ∀ c ∈ part, p c = false) :
    splitRuns p ([s].intercalate parts) = parts := by
  induction parts with
  | nil => exact absurd rfl hne
  | cons part parts ih =>
    have hpart := (h part List.mem_cons_self).2
    cases parts with
    | nil =>
      rw [List.intercalate_singleton]
      exact splitRuns_of_forall hpart
    | cons next parts =>
      have hrest := ih (List.cons_ne_nil _ _) fun l hl => h l (List.mem_cons_of_mem part hl)
      -- The next part begins with a character that is no separator.
      have hhead : ([s].intercalate (next :: parts)).head?.any p = false := by
        obtain ⟨hnext, hsep⟩ := h next (by simp)
        obtain ⟨c, cs, rfl⟩ := List.exists_cons_of_ne_nil hnext
        cases parts with
        | nil => simpa using hsep c List.mem_cons_self
        | cons l ls => simpa using hsep c List.mem_cons_self
      rw [List.intercalate_cons_cons, List.append_assoc, List.singleton_append,
        splitRuns_part hpart hs hhead, hrest]

/-- Codes that are joined by newlines are read again. -/
theorem parseCdkList_intercalate {codes : List String} (hnodup : codes.Nodup)
    (h : ∀ code ∈ codes, PageCode code) : parseCdkList ("\n".intercalate codes) = codes := by
  by_cases hcodes : codes = []
  · rw [hcodes]
    decide
  have hsplit : splitRuns isCdkSeparator ("\n".intercalate codes).toList =
      codes.map String.toList := by
    rw [String.toList_intercalate]
    refine splitRuns_intercalate (by decide) (by simpa using hcodes) fun part hpart => ?_
    obtain ⟨code, hcode, rfl⟩ := List.mem_map.mp hpart
    refine ⟨fun hnil => (h code hcode).1 ?_, fun c hc => (h code hcode).not_isCdkSeparator hc⟩
    rw [← String.ofList_toList (s := code), hnil]
  have hmap : (codes.map String.toList).map (fun part => normalizeCdk (String.ofList part)) =
      codes := by
    rw [List.map_map]
    refine (List.map_congr_left fun code hcode => ?_).trans (List.map_id codes)
    rw [Function.comp_apply, String.ofList_toList]
    exact (h code hcode).normalizeCode
  have hfilter : codes.filter (· ≠ "") = codes :=
    List.filter_eq_self.mpr fun code hcode => by simp [(h code hcode).1]
  rw [parseCdkList_eq, codeParts, hsplit, hmap, hfilter, eraseDups_of_nodup hnodup]

/-! ## The batch -/

/-- What becomes of a code that is neither empty nor a repetition: it is redeemed unless it is too
long. -/
def passCode {m : Type → Type} [Monad m] (redeemCode : String → m RedeemResponse)
    (code : String) : m BatchRedeemItem :=
  if maxCodeLength < byteLength code then pure (skippedItem code "兑换码过长")
  else itemOf code <$> redeemCode code

/-- The items of codes of which none is empty or a repetition. -/
def passCodes {m : Type → Type} [Monad m] (redeemCode : String → m RedeemResponse)
    (codes : List String) : m (List BatchRedeemItem) :=
  codes.mapM (passCode redeemCode)

/-- `Redeem` as it is called for a code of a batch. -/
def redeemPassed (rt : Runtime) (req : BatchRedeemRequest) (code : String) : Go RedeemResponse :=
  Go.withContext ("redeem batch code \"" ++ code ++ "\"") (redeem rt (req.item code))

/-- The response of a batch with these items. -/
def BatchRedeemRequest.respond (req : BatchRedeemRequest) (items : List BatchRedeemItem) :
    BatchRedeemResponse :=
  items.foldl BatchRedeemResponse.add req.start

/-- A code that is normalized, not empty and not seen before is passed on. -/
theorem redeemItem_eq (rt : Runtime) (req : BatchRedeemRequest) {seen : List String} {code : String}
    (hcode : normalizeCode code = code) (hne : code ≠ "") (hseen : code ∉ seen) :
    ∃ seen', (∀ c, c ∈ seen' → c = code ∨ c ∈ seen) ∧
      redeemItem rt req seen code =
        (fun item => (seen', item)) <$> passCode (redeemPassed rt req) code := by
  unfold redeemItem passCode itemError
  rw [hcode, if_neg hne]
  by_cases hlong : maxCodeLength < byteLength code
  · refine ⟨seen, fun c hc => Or.inr hc, ?_⟩
    rw [if_pos hlong, if_pos hlong, map_pure]
  · refine ⟨code :: seen, fun c hc => List.mem_cons.mp hc, ?_⟩
    rw [if_neg hlong, if_neg hseen, if_neg hlong, Functor.map_map, ← bind_pure_comp]
    rfl

/-- The loop over normalized codes of which none is empty or a repetition passes all of them on. -/
theorem redeemCodes_eq (rt : Runtime) (req : BatchRedeemRequest) {codes seen : List String}
    (h : ∀ code ∈ codes, normalizeCode code = code ∧ code ≠ "" ∧ code ∉ seen)
    (hnodup : codes.Nodup) (resp : BatchRedeemResponse) :
    redeemCodes rt req seen resp codes =
      (fun items => items.foldl BatchRedeemResponse.add resp) <$>
        passCodes (redeemPassed rt req) codes := by
  induction codes generalizing seen resp with
  | nil => rfl
  | cons code codes ih =>
    obtain ⟨hcode, hne, hseen⟩ := h code List.mem_cons_self
    obtain ⟨hmem, hnodup⟩ := List.nodup_cons.mp hnodup
    obtain ⟨seen', hseen', hitem⟩ := redeemItem_eq rt req hcode hne hseen
    -- The codes that are left are not seen before, since the list has no code twice.
    have hrest : ∀ other ∈ codes, normalizeCode other = other ∧ other ≠ "" ∧ other ∉ seen' := by
      intro other hother
      obtain ⟨hnormal, hother_ne, hother_seen⟩ := h other (List.mem_cons_of_mem code hother)
      refine ⟨hnormal, hother_ne, fun hin => ?_⟩
      rcases hseen' other hin with rfl | hin
      · exact hmem hother
      · exact hother_seen hin
    have hstep : redeemCodes rt req seen resp (code :: codes) =
        redeemItem rt req seen code >>= fun r => redeemCodes rt req r.1 (resp.add r.2) codes := rfl
    rw [hstep, hitem, bind_map_left]
    unfold passCodes
    rw [List.mapM_cons, map_bind]
    refine bind_congr fun item => ?_
    rw [ih hrest hnodup (resp.add item), map_bind]
    simp only [map_pure, List.foldl_cons, bind_pure_comp]
    rfl

/-- `BatchRedeem` without a key is the loop over the codes. -/
theorem batchRedeem_eq (rt : Runtime) {req : BatchRedeemRequest}
    (hinput : checkBatchInput req.trimmed = none) (hkey : req.idempotencyKey = "") :
    batchRedeem rt req = redeemCodes rt req.trimmed [] req.trimmed.start req.codes := by
  unfold batchRedeem
  rw [hinput, if_pos hkey]

/-! ## The next input -/

section Outcomes

variable {outcome : String → RedeemResponse}

/-- The results of a batch are its items, and its failures are counted. -/
theorem respond_spec (items : List BatchRedeemItem) (resp : BatchRedeemResponse) :
    (items.foldl BatchRedeemResponse.add resp).results = resp.results ++ items ∧
      (items.foldl BatchRedeemResponse.add resp).failed =
        resp.failed + (items.filter fun item => !item.ok).length := by
  induction items generalizing resp with
  | nil => exact ⟨(List.append_nil _).symm, rfl⟩
  | cons item items ih =>
    obtain ⟨hresults, hfailed⟩ := ih (resp.add item)
    rw [List.foldl_cons, hresults, hfailed]
    refine ⟨List.append_assoc _ _ _, ?_⟩
    cases hok : item.ok with
    | true =>
      rw [List.filter_cons_of_neg (by simp [hok])]
      simp [BatchRedeemResponse.add, hok]
    | false =>
      rw [List.filter_cons_of_pos (by simp [hok]), List.length_cons]
      simp only [BatchRedeemResponse.add, hok, Bool.false_eq_true, if_false]
      omega

/-- The next input joins the codes of the items that failed. -/
theorem codeInputAfter_respond (req : BatchRedeemRequest) (items : List BatchRedeemItem) :
    codeInputAfter (req.respond items) =
      "\n".intercalate ((items.filter fun item => !item.ok).map BatchRedeemItem.code) := by
  obtain ⟨hresults, hfailed⟩ := respond_spec items req.start
  have hzero : req.start.failed = 0 := rfl
  have hnil : req.start.results = [] := rfl
  unfold codeInputAfter BatchRedeemRequest.respond
  rw [hresults, hfailed, hzero, hnil, Nat.zero_add, List.nil_append]
  split_ifs with hnone
  · rw [List.length_eq_zero_iff.mp hnone]
    rfl
  · rfl

/-- The item of a code that failed carries the code. -/
theorem code_passCode {code : String} (h : PageCode code)
    (hok : (passCode (m := Id) outcome code).run.ok = false) :
    (passCode (m := Id) outcome code).run.code = code := by
  unfold passCode at hok ⊢
  split_ifs at hok ⊢ with hlong
  · exact h.trimSpace
  · have hfail : (outcome code).ok = false := hok
    change (if (outcome code).ok then _ else trimSpace code) = code
    rw [hfail, if_neg Bool.false_ne_true, h.trimSpace]

/-- The page reads the codes that failed from the next input. -/
theorem parseCdkList_codeInputAfter {codes : List String} (hnodup : codes.Nodup)
    (h : ∀ code ∈ codes, PageCode code) (req : BatchRedeemRequest)
    (outcome : String → RedeemResponse) :
    parseCdkList (codeInputAfter (req.respond (passCodes (m := Id) outcome codes).run)) =
      codes.filter fun code => !(passCode (m := Id) outcome code).run.ok := by
  have hitems : (passCodes (m := Id) outcome codes).run =
      codes.map fun code => (passCode (m := Id) outcome code).run := by
    unfold passCodes
    rw [List.idRun_mapM]
  have hcodes : ((codes.map fun code => (passCode (m := Id) outcome code).run).filter
      fun item => !item.ok).map BatchRedeemItem.code =
      codes.filter fun code => !(passCode (m := Id) outcome code).run.ok := by
    rw [List.filter_map, List.map_map]
    refine (List.map_congr_left fun code hcode => ?_).trans (List.map_id _)
    obtain ⟨hmem, hok⟩ := List.mem_filter.mp hcode
    exact code_passCode (h code hmem) (by simpa using hok)
  rw [codeInputAfter_respond, hitems, hcodes]
  exact parseCdkList_intercalate (hnodup.filter _) fun code hcode =>
    h code (List.mem_filter.mp hcode).1

end Outcomes

/-- For every text of the page: the list of codes has the codes between the separators, each once
and in the order of their first occurrences, none is empty, they consist of `A-Z0-9`, and
`NormalizeCode` leaves them as they are; the loop of `BatchRedeem`, and `BatchRedeem` without a key,
redeem each of them that is not too long; and whatever becomes of them, the page reads from its next
input those that failed. -/
theorem code_list_survives (value : String) :
    FirstOccurrences (codeParts value) (parseCdkList value) ∧
      (∀ code ∈ parseCdkList value, code ≠ "" ∧
        (∀ c ∈ code.toList, c.isUpper = true ∨ c.isDigit = true) ∧ normalizeCode code = code) ∧
      (∀ (rt : Runtime) (req : BatchRedeemRequest), req.codes = parseCdkList value →
        redeemCodes rt req.trimmed [] req.trimmed.start req.codes =
            req.trimmed.respond <$> passCodes (redeemPassed rt req.trimmed) req.codes ∧
          (checkBatchInput req.trimmed = none → req.idempotencyKey = "" →
            batchRedeem rt req =
              req.trimmed.respond <$> passCodes (redeemPassed rt req.trimmed) req.codes)) ∧
      ∀ (req : BatchRedeemRequest) (outcome : String → RedeemResponse),
        parseCdkList (codeInputAfter
            (req.respond (passCodes (m := Id) outcome (parseCdkList value)).run)) =
          (parseCdkList value).filter fun code => !(passCode (m := Id) outcome code).run.ok := by
  have hfirst : FirstOccurrences (codeParts value) (parseCdkList value) := by
    rw [parseCdkList_eq]
    exact firstOccurrences_eraseDups _
  have hpage : ∀ code ∈ parseCdkList value, PageCode code := fun code => pageCode_of_mem
  -- The loop passes every code of the page on.
  have hloop : ∀ (rt : Runtime) (req : BatchRedeemRequest), req.codes = parseCdkList value →
      redeemCodes rt req.trimmed [] req.trimmed.start req.codes =
        req.trimmed.respond <$> passCodes (redeemPassed rt req.trimmed) req.codes := by
    intro rt req hcodes
    rw [hcodes]
    exact redeemCodes_eq rt req.trimmed (fun code hcode => ⟨(hpage code hcode).normalizeCode,
      (hpage code hcode).1, List.not_mem_nil⟩) hfirst.nodup req.trimmed.start
  refine ⟨hfirst, fun code hcode => ?_, fun rt req hcodes => ?_, fun req outcome => ?_⟩
  · refine ⟨(hpage code hcode).1, fun c hc => ?_, (hpage code hcode).normalizeCode⟩
    rw [← Bool.or_eq_true]
    exact List.all_eq_true.mp (hpage code hcode).2 c hc
  · refine ⟨hloop rt req hcodes, fun hinput hkey => ?_⟩
    rw [batchRedeem_eq rt hinput hkey, hloop rt req hcodes]
  · exact parseCdkList_codeInputAfter hfirst.nodup hpage req outcome

/-- A batch with the codes `AB1` and `CD`. -/
def twoCodesBatch : BatchRedeemRequest :=
  { userID := "a@example.com", codes := ["AB1", "CD"], idempotencyKey := "", ip := "" }

/-- The text has the codes `AB1` and `CD`, and both are redeemed. -/
theorem code_list_survives_two :
    parseCdkList "ab-1,cd;AB1" = ["AB1", "CD"] ∧
      batchRedeem .simple twoCodesBatch =
        twoCodesBatch.trimmed.respond <$>
          passCodes (redeemPassed .simple twoCodesBatch.trimmed) twoCodesBatch.codes := by
  have hcodes : twoCodesBatch.codes = parseCdkList "ab-1,cd;AB1" := by decide +kernel
  have hinput : checkBatchInput twoCodesBatch.trimmed = none := rfl
  exact ⟨hcodes.symm, ((code_list_survives "ab-1,cd;AB1").2.2.1 .simple twoCodesBatch hcodes).2
    hinput
    rfl⟩

end CdkSystem
