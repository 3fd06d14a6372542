import CdkSystem.CodeList
import CdkSystem.Export

/-!
# Exported codes are read back

A code is displayed with dashes in it, and normalizing takes them out again
(`normalizeCode_displayCode`). In a file, each code is on a line of its own, so the page splits the
file into the displayed codes and parts without letters and digits (`splitRuns_lines`), and its loop
keeps every code (`parseParts_append`).

A displayed code is made of groups of letters and digits between dashes, all of which the page's
list keeps or drops as `NormalizeCode` does. In the CSV file no field needs quotes
(`fieldNeedsQuotes_displayCode`), so the header and the separators are the only other text, and the
page's loop passes over them. The result is about the body that the handler `ExportBatch` answers
with, for every batch and both formats (`exportBatch_read_back`).
-/

namespace CdkSystem

open Relational

/-! ## Displayed codes -/

/-- The groups of a code are all of its characters, in their order. -/
theorem flatten_groups (fuel : ℕ) (cs : List Char) (h : cs.length ≤ fuel) :
    (groups fuel cs).flatten = cs := by
  induction fuel generalizing cs with
  | zero =>
    have hnil : cs = [] := List.eq_nil_of_length_eq_zero (by omega)
    rw [hnil]
    rfl
  | succ fuel ih =>
    cases cs with
    | nil => rfl
    | cons c cs =>
      have hlen : ((c :: cs).drop 4).length ≤ fuel := by
        rw [List.length_drop]
        simp only [List.length_cons] at h ⊢
        omega
      rw [groups, List.flatten_cons, ih _ hlen, List.take_append_drop]

/-- A separator that is filtered out does not show between the parts. -/
theorem filter_intercalate {p : Char → Bool} {c : Char} (h : p c = false)
    (parts : List (List Char)) :
    ([c].intercalate parts).filter p = parts.flatten.filter p := by
  induction parts with
  | nil => rfl
  | cons part parts ih =>
    cases parts with
    | nil => simp
    | cons part' parts =>
      rw [List.intercalate_cons_cons, List.filter_append, List.filter_append, ih]
      simp [h]

/-- The letters and digits of the groups of a text are those of the text. -/
theorem filter_formatGroups (s : String) :
    (formatGroups s).toList.filter Char.isAlphanum = s.toList.filter Char.isAlphanum := by
  unfold formatGroups
  split_ifs with h
  · rfl
  · have hdash : "-".toList = ['-'] := rfl
    rw [String.toList_intercalate, hdash, filter_intercalate (by decide), List.map_map]
    have hid : (String.toList ∘ String.ofList) = id := by
      funext cs
      exact String.toList_ofList
    rw [hid, List.map_id, flatten_groups _ _ (le_of_eq String.length_toList)]

/-- The letters and digits of a displayed code are those of the code. -/
theorem filter_displayCode (code codePrefix : String) :
    (displayCode code codePrefix).toList.filter Char.isAlphanum =
      code.toList.filter Char.isAlphanum := by
  unfold displayCode
  dsimp only
  split_ifs with h
  · -- The prefix and what follows it are the code.
    obtain ⟨-, rest, hrest⟩ := h
    have hdrop : code.toList.drop (toUpper codePrefix).length = rest := by
      rw [← hrest, ← String.length_toList, List.drop_left]
    rw [hdrop, String.toList_append, String.toList_append, List.filter_append, List.filter_append,
      filter_formatGroups, String.toList_ofList, ← hrest, List.filter_append]
    simp
  · exact filter_formatGroups code

/-- A displayed code is normalized to the code. -/
theorem normalizeCode_displayCode {code : String} (codePrefix : String)
    (h : upperAlphanumeric code = true) : normalizeCode (displayCode code codePrefix) = code := by
  refine normalizeCode_eq h ?_
  rw [filter_displayCode]
  exact filter_of_upper (List.all_eq_true.mp h)

/-- The characters of groups with dashes between them. -/
theorem mem_intercalate {c d : Char} {parts : List (List Char)} (h : c ∈ [d].intercalate parts) :
    c ∈ parts.flatten ∨ c = d := by
  induction parts with
  | nil => cases h
  | cons part parts ih =>
    cases parts with
    | nil =>
      rw [List.intercalate_singleton] at h
      exact Or.inl (by simpa using h)
    | cons part' parts =>
      rw [List.intercalate_cons_cons, List.mem_append, List.mem_append, List.mem_singleton] at h
      rw [List.flatten_cons, List.mem_append]
      tauto

/-- The characters of a grouped text are those of the text, and dashes. -/
theorem mem_formatGroups {c : Char} {s : String} (h : c ∈ (formatGroups s).toList) :
    c ∈ s.toList ∨ c = '-' := by
  unfold formatGroups at h
  split_ifs at h
  · exact Or.inl h
  · have hdash : "-".toList = ['-'] := rfl
    have hid : (String.toList ∘ String.ofList) = id := by
      funext cs
      exact String.toList_ofList
    rw [String.toList_intercalate, hdash, List.map_map, hid, List.map_id] at h
    have hmem := mem_intercalate h
    rwa [flatten_groups _ _ (le_of_eq String.length_toList)] at hmem

/-- The characters of a displayed code are those of the code, and dashes. -/
theorem mem_displayCode {c : Char} {code codePrefix : String}
    (h : c ∈ (displayCode code codePrefix).toList) : c ∈ code.toList ∨ c = '-' := by
  unfold displayCode at h
  dsimp only at h
  split_ifs at h with hfront
  · rw [String.toList_append, String.toList_append, List.mem_append, List.mem_append] at h
    rcases h with (h | h) | h
    · exact Or.inl (hfront.2.subset h)
    · exact Or.inr (List.mem_singleton.mp h)
    · refine (mem_formatGroups h).imp_left fun hc => ?_
      rw [String.toList_ofList] at hc
      exact List.mem_of_mem_drop hc
  · exact mem_formatGroups h

/-- A displayed code has a character, so its line in a file is not empty. -/
theorem displayCode_ne_empty {code : String} (codePrefix : String)
    (h : upperAlphanumeric code = true) (hne : code ≠ "") : displayCode code codePrefix ≠ "" := by
  intro hnil
  have hcode := normalizeCode_displayCode codePrefix h
  rw [hnil] at hcode
  exact hne hcode.symm

/-! ## Lines -/

/-- The parts of lines that are not empty are the lines, with an empty part at the end. -/
theorem splitRuns_lines {p : Char → Bool} {s : Char} (hs : p s = true) {lines : List (List Char)}
    (h : ∀ line ∈ lines, line ≠ [] ∧ ∀ c ∈ line, p c = false) :
    splitRuns p (lines.flatMap fun line => line ++ [s]) = lines ++ [[]] := by
  induction lines with
  | nil => rfl
  | cons line lines ih =>
    have hlines : ∀ line ∈ lines, line ≠ [] ∧ ∀ c ∈ line, p c = false :=
      fun l hl => h l (by simp [hl])
    -- The next line begins with a character that is no separator.
    have hhead : (lines.flatMap fun line => line ++ [s]).head?.any p = false := by
      cases lines with
      | nil => rfl
      | cons line' lines =>
        obtain ⟨c, cs, rfl⟩ := List.exists_cons_of_ne_nil (hlines line' (by simp)).1
        simpa using (hlines _ List.mem_cons_self).2 c (by simp)
    rw [List.flatMap_cons, List.append_assoc, List.singleton_append,
      splitRuns_part (h line (by simp)).2 hs hhead, ih hlines, List.cons_append]

/-- The numbers of upper-case letters, digits and the dash. -/
theorem toNat_displayCode {code codePrefix : String} (h : upperAlphanumeric code = true) {c : Char}
    (hc : c ∈ (displayCode code codePrefix).toList) :
    c.toNat = 45 ∨ (48 ≤ c.toNat ∧ c.toNat ≤ 57) ∨ (65 ≤ c.toNat ∧ c.toNat ≤ 90) := by
  rcases mem_displayCode hc with hc | rfl
  · exact Or.inr (toNat_of_upper (List.all_eq_true.mp h c hc))
  · exact Or.inl rfl

/-- The characters of a displayed code are no separators. -/
theorem not_isCdkSeparator {code codePrefix : String} (h : upperAlphanumeric code = true) {c : Char}
    (hc : c ∈ (displayCode code codePrefix).toList) : isCdkSeparator c = false :=
  isCdkSeparator_eq_false (toNat_displayCode h hc)

/-- A displayed code needs no quotes in a CSV file. -/
theorem fieldNeedsQuotes_displayCode {code codePrefix : String}
    (h : upperAlphanumeric code = true) :
    fieldNeedsQuotes (displayCode code codePrefix) = false := by
  -- A displayed code has dashes, digits and upper-case letters only.
  have hnat : ∀ c ∈ (displayCode code codePrefix).toList,
      c.toNat = 45 ∨ (48 ≤ c.toNat ∧ c.toNat ≤ 57) ∨ (65 ≤ c.toNat ∧ c.toNat ≤ 90) :=
    fun c hc => toNat_displayCode h hc
  generalize displayCode code codePrefix = field at hnat
  have hescape : field ≠ "\\." := by
    rintro rfl
    have := hnat '\\' (by decide)
    revert this
    decide
  have hany : (field.toList.any (· ∈ [',', '"', '\r', '\n'])) = false := by
    rw [List.any_eq_false]
    intro c hc
    have := hnat c hc
    simp only [List.mem_cons, List.not_mem_nil, or_false, decide_eq_true_eq]
    rintro (rfl | rfl | rfl | rfl) <;> revert this <;> decide
  have hhead : field.toList.head?.any isSpace = false := by
    cases hl : field.toList with
    | nil => rfl
    | cons c cs =>
      have := hnat c (by simp [hl])
      simp only [List.head?_cons, Option.any_some, isSpace, List.mem_cons, List.not_mem_nil,
        or_false, Bool.or_eq_false_iff, decide_eq_false_iff_not, Bool.and_eq_false_iff]
      omega
  rw [fieldNeedsQuotes, hany, hhead]
  simp [hescape]

/-! ## The page's list -/

/-- The loop keeps the codes of the parts, when they differ from one another and from those seen. -/
theorem parseParts_append {display : String → String} {cs : List String}
    (h : ∀ code ∈ cs, normalizeCdk (display code) = code ∧ code ≠ "") (hnodup : cs.Nodup)
    (seen codes : List String) (hseen : ∀ code ∈ cs, code ∉ seen) :
    parseParts seen codes (cs.map display ++ [""]) = codes ++ cs := by
  induction cs generalizing seen codes with
  | nil =>
    have hempty : normalizeCdk "" = "" := rfl
    simp [parseParts, hempty]
  | cons code cs ih =>
    obtain ⟨hnormal, hne⟩ := h code (by simp)
    obtain ⟨hnot, hrest⟩ := List.nodup_cons.mp hnodup
    have hcs : ∀ code' ∈ cs, code' ∉ code :: seen := by
      intro code' hcode' hmem
      rcases List.mem_cons.mp hmem with rfl | hmem
      · exact hnot hcode'
      · exact hseen code' (by simp [hcode']) hmem
    have hkeep : ¬ (code = "" ∨ code ∈ seen) := not_or.mpr ⟨hne, hseen code (by simp)⟩
    rw [List.map_cons, List.cons_append, parseParts, hnormal, if_neg hkeep,
      ih (fun c hc => h c (by simp [hc])) hrest _ _ hcs, List.append_assoc]
    rfl

/-- The displays of codes are read back as the codes. -/
theorem parse_displays {codes : List String} (codePrefix : String)
    (h : ∀ code ∈ codes, upperAlphanumeric code = true ∧ code ≠ "") (hnodup : codes.Nodup) :
    parseParts [] [] (codes.map (displayCode · codePrefix) ++ [""]) = codes := by
  refine parseParts_append (fun code hcode => ?_) hnodup [] [] (by simp)
  exact ⟨normalizeCode_displayCode codePrefix (h code hcode).1, (h code hcode).2⟩

/-- The lines of displayed codes are not empty and have no separators. -/
theorem displays_are_parts {codes : List String} (codePrefix : String)
    (h : ∀ code ∈ codes, upperAlphanumeric code = true ∧ code ≠ "") :
    ∀ line ∈ codes.map fun code => (displayCode code codePrefix).toList,
      line ≠ [] ∧ ∀ c ∈ line, isCdkSeparator c = false := by
  intro line hline
  obtain ⟨code, hcode, rfl⟩ := List.mem_map.mp hline
  obtain ⟨hupper, hne⟩ := h code hcode
  refine ⟨fun hnil => displayCode_ne_empty codePrefix hupper hne ?_, fun c hc => ?_⟩
  · exact String.toList_injective hnil
  · exact not_isCdkSeparator hupper hc

/-- A text file is read back by the page: the codes of the batch, in their order. -/
theorem parse_txtBody {codes : List String} (codePrefix : String)
    (h : ∀ code ∈ codes, upperAlphanumeric code = true ∧ code ≠ "") (hnodup : codes.Nodup) :
    parseCdkList (txtBody codes codePrefix) = codes := by
  have hbody : (txtBody codes codePrefix).toList =
      (codes.map fun code => (displayCode code codePrefix).toList).flatMap
        fun line => line ++ ['\n'] := by
    simp [txtBody, List.flatMap_map]
  rw [parseCdkList, hbody, splitRuns_lines (by decide) (displays_are_parts codePrefix h),
    List.map_append, List.map_map]
  have hdisplay : (String.ofList ∘ fun code => (displayCode code codePrefix).toList) =
      (displayCode · codePrefix) := by
    funext code
    exact String.ofList_toList
  rw [hdisplay]
  exact parse_displays codePrefix h hnodup

/-- A CSV file is read back by the page: the codes of the batch, in their order. -/
theorem parse_csvBody {codes : List String} (codePrefix : String)
    (h : ∀ code ∈ codes, upperAlphanumeric code = true ∧ code ≠ "") (hnodup : codes.Nodup) :
    parseCdkList (csvBody codes codePrefix) = codes := by
  have hrecord : ∀ code ∈ codes, csvRecord (displayCode code codePrefix) =
      displayCode code codePrefix ++ "\n" := by
    intro code hcode
    rw [csvRecord, fieldNeedsQuotes_displayCode (h code hcode).1]
    rfl
  have hheader : csvRecord "兑换码" = "兑换码\n" := by decide
  -- The header is one line more, and the byte order mark is a separator.
  have hlines : ∀ line ∈ "兑换码".toList :: codes.map fun code => (displayCode code codePrefix).toList,
      line ≠ [] ∧ ∀ c ∈ line, isCdkSeparator c = false := by
    intro line hline
    rcases List.mem_cons.mp hline with rfl | hline
    · have hall : ("兑换码".toList.all fun c => !isCdkSeparator c) = true := by decide
      exact ⟨by decide, fun c hc => by simpa using List.all_eq_true.mp hall c hc⟩
    · exact displays_are_parts codePrefix h line hline
  have hbody : (csvBody codes codePrefix).toList = [] ++ '\uFEFF' ::
      ("兑换码".toList :: codes.map fun code => (displayCode code codePrefix).toList).flatMap
        fun line => line ++ ['\n'] := by
    rw [csvBody, hheader, List.map_congr_left hrecord]
    simp [List.flatMap_map]
  rw [parseCdkList, hbody, splitRuns_part (by simp) (by decide) (by simp; decide),
    splitRuns_lines (by decide) hlines]
  have hdisplay : (codes.map fun code => (displayCode code codePrefix).toList).map String.ofList =
      codes.map (displayCode · codePrefix) := by
    rw [List.map_map]
    exact List.map_congr_left fun code _ => String.ofList_toList
  have hskip : ∀ parts : List String,
      parseParts [] [] ("" :: "兑换码" :: parts) = parseParts [] [] parts := by
    intro parts
    have hempty : normalizeCdk "" = "" := rfl
    have hheader' : normalizeCdk "兑换码" = "" := by decide
    simp [parseParts, hempty, hheader']
  simp only [List.cons_append, List.map_cons, List.map_append, hdisplay, String.ofList_toList]
  exact (hskip _).trans (parse_displays codePrefix h hnodup)

/-- The body that `ExportBatch` sends is read back as the texts of the batch's codes, newest first.
-/
theorem exportBatch_read_back {T : Tables} {id : ℕ} {b : Batch} (fmtParam : String)
    (hb : T.batches.get? id = some b)
    (hcodes : ∀ c ∈ T.codes, c.batchId = id → upperAlphanumeric c.code = true ∧ c.code ≠ "")
    (hunique : ∀ c ∈ T.codes, ∀ c' ∈ T.codes, c.batchId = id → c'.batchId = id →
      c.code = c'.code → c = c') :
    ∃ body, exportBatch T id fmtParam = .ok body ∧
      parseCdkList body = (T.listCodesByBatch id 100000 0).map Code.code := by
  have hsub : ∀ c ∈ T.listCodesByBatch id 100000 0, c ∈ T.codes ∧ c.batchId = id := by
    intro c hc
    have hsorted := List.mem_of_mem_drop (List.mem_of_mem_take hc)
    obtain ⟨hmem, hbatch⟩ := List.mem_filter.mp (List.mem_mergeSort.mp hsorted)
    exact ⟨hmem, of_decide_eq_true hbatch⟩
  -- Sorting and cutting repeat no row, and different rows of the batch have different codes.
  have hrows : (T.listCodesByBatch id 100000 0).Nodup := by
    have hfilter := (T.codes.nodup.of_map _).filter fun c => c.batchId = id
    have hsorted := (List.mergeSort_perm _ fun c c' : Code => c'.id ≤ c.id).nodup_iff.mpr hfilter
    exact ((List.take_sublist _ _).trans (List.drop_sublist _ _)).nodup hsorted
  have hnodup : ((T.listCodesByBatch id 100000 0).map Code.code).Nodup :=
    hrows.map_on fun c hc c' hc' =>
      hunique c (hsub c hc).1 c' (hsub c' hc').1 (hsub c hc).2 (hsub c' hc').2
  have hupper : ∀ code ∈ (T.listCodesByBatch id 100000 0).map Code.code,
      upperAlphanumeric code = true ∧ code ≠ "" := by
    intro code hcode
    obtain ⟨c, hc, rfl⟩ := List.mem_map.mp hcode
    exact hcodes c (hsub c hc).1 (hsub c hc).2
  refine ⟨_, by rw [exportBatch, hb], ?_⟩
  split_ifs
  · exact parse_csvBody b.codePrefix hupper hnodup
  · exact parse_txtBody b.codePrefix hupper hnodup

/-- The codes that are written into a file, as text or as CSV, are read back in their order;
displayed codes are normalized to the codes, so different codes have different displays; and what
`ExportBatch` sends for a batch with different codes is read back as the texts of its codes. -/
theorem export_read_back :
    (∀ (codes : List String) (codePrefix : String),
      (∀ code ∈ codes, upperAlphanumeric code = true ∧ code ≠ "") → codes.Nodup →
      upperAlphanumeric codePrefix = true →
      parseCdkList (txtBody codes codePrefix) = codes ∧
        parseCdkList (csvBody codes codePrefix) = codes) ∧
    (∀ code codePrefix : String, upperAlphanumeric code = true →
      upperAlphanumeric codePrefix = true →
      normalizeCode (displayCode code codePrefix) = code) ∧
    (∀ code code' codePrefix : String, upperAlphanumeric code = true →
      upperAlphanumeric code' = true → upperAlphanumeric codePrefix = true →
      displayCode code codePrefix = displayCode code' codePrefix → code = code') ∧
    ∀ (T : Tables) (id : ℕ) (b : Batch) (fmtParam : String), T.batches.get? id = some b →
      (∀ c ∈ T.codes, c.batchId = id → upperAlphanumeric c.code = true ∧ c.code ≠ "") →
      (∀ c ∈ T.codes, ∀ c' ∈ T.codes, c.batchId = id → c'.batchId = id →
        c.code = c'.code → c = c') →
      ∃ body, exportBatch T id fmtParam = .ok body ∧
        parseCdkList body = (T.listCodesByBatch id 100000 0).map Code.code := by
  refine ⟨fun codes codePrefix h hnodup _ => ⟨parse_txtBody codePrefix h hnodup,
    parse_csvBody codePrefix h hnodup⟩, fun code codePrefix h _ =>
    normalizeCode_displayCode codePrefix h, fun code code' codePrefix h h' _ hdisplay => ?_,
    fun T id b fmtParam => exportBatch_read_back fmtParam⟩
  rw [← normalizeCode_displayCode codePrefix h, hdisplay, normalizeCode_displayCode codePrefix h']

/-- A batch whose codes are displayed with the prefix P. -/
def prefixBatch : Batch :=
  { id := 1, name := "b", description := "", payloadJson := .obj [], codePrefix := "P"
    codeLength := 8, expiresAt := none, maxUsesPerCode := 1, maxRedeemsPerUser := 1
    webhookUrl := "", webhookSecret := "", assignCredential := false, credentialPlanType := ""
    status := .active }

/-- The batch has a code with the prefix, the prefix itself and a code without it. -/
def threeExported : Tables where
  batches := ⟨[prefixBatch], by decide⟩
  codes := ⟨[⟨1, 1, "PAB2CD3", .unused, 0⟩, ⟨2, 1, "P", .unused, 0⟩, ⟨3, 1, "AB", .unused, 0⟩],
    by decide⟩
  credentials := ∅
  keys := ∅
  redemptions := ∅
  outbox := ∅

/-- The three codes are read back from both files, and from what `ExportBatch` sends. -/
theorem export_read_back_three :
    parseCdkList (txtBody ["PAB2CD3", "P", "AB"] "P") = ["PAB2CD3", "P", "AB"] ∧
      parseCdkList (csvBody ["PAB2CD3", "P", "AB"] "P") = ["PAB2CD3", "P", "AB"] ∧
      ∃ body, exportBatch threeExported 1 "csv" = .ok body ∧
        parseCdkList body = ["AB", "P", "PAB2CD3"] := by
  obtain ⟨hbodies, -, -, hexport⟩ := export_read_back
  obtain ⟨htxt, hcsv⟩ := hbodies ["PAB2CD3", "P", "AB"] "P" (by decide) (by decide) (by decide)
  obtain ⟨body, hbody, hparse⟩ := hexport threeExported 1 prefixBatch "csv" rfl (by decide)
    (by decide)
  have hcodes : (threeExported.listCodesByBatch 1 100000 0).map Code.code =
      ["AB", "P", "PAB2CD3"] := by
    simp [Tables.listCodesByBatch, threeExported, List.mergeSort]
  exact ⟨htxt, hcsv, body, hbody, hparse.trans hcodes⟩

end CdkSystem
