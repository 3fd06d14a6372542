import CdkSystem.Converter
import CdkSystem.Proof.JsonTexts

/-!
# An array and lines of JSON mean the same accounts

`detectAndParse` reads a text as one JSON value, and line by line only when that is a syntax error.
The lines of a text that are not blank (`contents`) are the same before and after trimming the text,
so a single record is read as the whole text and several ones are a syntax error there, since
`JSON.parse` stops after the first of them (`same_accounts`).

Blank lines and the ends of lines make no difference, since they are trimmed away on both paths. The
induction is on the lines, and what a record is written as has no line break in it.
-/

namespace CdkSystem

open Js (text unit isWhitespace)
open Converter

variable {ν : Type} {numbers : NumberText ν}

/-- The trimmed lines of a text that are not blank. -/
def contents (s : JsString) : List JsString := ((splitLines s).map Js.trim).filter (· ≠ [])

/-- There is at least one line. -/
theorem splitLines_ne_nil (s : JsString) : splitLines s ≠ [] := by
  induction s with
  | nil => simp [splitLines]
  | cons u us ih =>
    rw [splitLines]
    split_ifs
    · simp
    · exact ih
    · cases splitLines us <;> simp

/-- A line break ends a line, of which only white space is lost. -/
theorem splitLines_append {s : JsString} (t : JsString) (h : unit '\n' ∉ s) :
    ∃ line, splitLines (s ++ unit '\n' :: t) = line :: splitLines t ∧
      line.rdropWhile isWhitespace = s.rdropWhile isWhitespace := by
  induction s with
  | nil => exact ⟨[], by simp [splitLines], rfl⟩
  | cons u us ih =>
    rw [List.mem_cons, not_or] at h
    obtain ⟨line, hline, hdrop⟩ := ih h.2
    rw [List.cons_append, splitLines, if_neg (Ne.symm h.1)]
    split_ifs with hreturn
    · -- A carriage return before the line break belongs to it.
      cases us with
      | nil =>
        refine ⟨line, hline, ?_⟩
        rw [hdrop, hreturn.1]
        decide
      | cons v vs =>
        have hv : v = unit '\n' := by simpa using hreturn.2
        exact absurd (by simp [hv]) h.2
    · exact ⟨u :: line, by rw [hline], Trimming.rdropWhile_cons_congr u hdrop⟩

/-- A text without line breaks is one line. -/
theorem splitLines_of_notMem {s : JsString} (h : unit '\n' ∉ s) : splitLines s = [s] := by
  induction s with
  | nil => rfl
  | cons u us ih =>
    rw [List.mem_cons, not_or] at h
    have hreturn : ¬(u = unit '\r' ∧ us.head? = some (unit '\n')) := fun hr =>
      h.2 (List.mem_of_mem_head? hr.2)
    rw [splitLines, if_neg (Ne.symm h.1), if_neg hreturn, ih h.2]

/-- The content of a line comes before those of the lines after it. -/
theorem contents_append {s : JsString} (t : JsString) (h : unit '\n' ∉ s) :
    contents (s ++ unit '\n' :: t) = [Js.trim s].filter (· ≠ []) ++ contents t := by
  obtain ⟨line, hline, hdrop⟩ := splitLines_append t h
  have htrim : Js.trim line = Js.trim s := Trimming.trim_congr hdrop
  unfold contents
  rw [hline, List.map_cons, htrim, ← List.filter_append, List.singleton_append]

/-- The content of a single line. -/
theorem contents_of_notMem {s : JsString} (h : unit '\n' ∉ s) :
    contents s = [Js.trim s].filter (· ≠ []) := by
  unfold contents
  rw [splitLines_of_notMem h, List.map_singleton]

/-- White space in front of a text does not change the contents. -/
theorem contents_cons {u : UInt16} (us : JsString) (h : isWhitespace u = true) :
    contents (u :: us) = contents us := by
  unfold contents
  rw [splitLines]
  split_ifs
  · have htrim : Js.trim [] = [] := rfl
    simp [htrim]
  · rfl
  · obtain ⟨line, lines, hlines⟩ := List.exists_cons_of_ne_nil (splitLines_ne_nil us)
    have hfront : ∀ v ∈ [u], isWhitespace v = true := by simpa using h
    have htrim : Js.trim (u :: line) = Js.trim line := Trimming.trim_append_left line hfront
    rw [hlines, List.map_cons, List.map_cons, htrim]

/-- A line without the white space at its end. -/
def trimEnd (line : JsString) : JsString := line.rdropWhile isWhitespace

/-- White space at the end of a text only adds lines that are blank. -/
theorem splitLines_concat {u : UInt16} (h : isWhitespace u = true) (s : JsString) :
    ∃ blank, (splitLines (s ++ [u])).map trimEnd = (splitLines s).map trimEnd ++ blank ∧
      ∀ line ∈ blank, line = [] := by
  have hu : trimEnd [u] = [] := by simp [trimEnd, List.rdropWhile, h]
  have hnil : trimEnd [] = [] := rfl
  induction s with
  | nil =>
    by_cases hline : u = unit '\n'
    · exact ⟨[[]], by simp [splitLines, hline, hnil], by simp⟩
    · exact ⟨[], by simp [splitLines, hline, hnil, hu], by simp⟩
  | cons c cs ih =>
    obtain ⟨blank, heq, hblank⟩ := ih
    rw [List.cons_append, splitLines, splitLines]
    by_cases hline : c = unit '\n'
    · exact ⟨blank, by simp [hline, heq], hblank⟩
    · have hhead : c = unit '\r' ∧ cs.head? = some (unit '\n') →
          c = unit '\r' ∧ (cs ++ [u]).head? = some (unit '\n') := by
        rintro ⟨hc, hcs⟩
        exact ⟨hc, by rw [List.head?_append, hcs]; rfl⟩
      rw [if_neg hline, if_neg hline]
      by_cases hreturn : c = unit '\r' ∧ (cs ++ [u]).head? = some (unit '\n')
      · rw [if_pos hreturn]
        cases cs with
        | nil =>
          -- The last line ends with a carriage return, which now belongs to the line break.
          have hlf : u = unit '\n' := by simpa using hreturn.2
          have hcr : trimEnd [unit '\r'] = [] := by decide
          exact ⟨[[]], by simp [splitLines, hlf, hreturn.1, hcr, hnil], by simp⟩
        | cons d ds => exact ⟨blank, by rw [if_pos ⟨hreturn.1, hreturn.2⟩, heq], hblank⟩
      · rw [if_neg hreturn, if_neg fun h => hreturn (hhead h)]
        obtain ⟨line, lines, hlines⟩ := List.exists_cons_of_ne_nil (splitLines_ne_nil cs)
        obtain ⟨line', lines', hlines'⟩ :=
          List.exists_cons_of_ne_nil (splitLines_ne_nil (cs ++ [u]))
        rw [hlines, hlines', List.map_cons, List.map_cons, List.cons_append,
          List.cons.injEq] at heq
        have hfirst : trimEnd (c :: line') = trimEnd (c :: line) :=
          Trimming.rdropWhile_cons_congr c heq.1
        refine ⟨blank, ?_, hblank⟩
        rw [hlines, hlines', List.map_cons, List.map_cons, hfirst, heq.2, List.cons_append]

/-- White space at the end of a text does not change the contents. -/
theorem contents_concat {u : UInt16} (h : isWhitespace u = true) (s : JsString) :
    contents (s ++ [u]) = contents s := by
  have hlines : ∀ t, contents t =
      (((splitLines t).map trimEnd).map fun l => l.dropWhile isWhitespace).filter (· ≠ []) := by
    intro t
    unfold contents
    rw [List.map_map]
    congr 1
    exact List.map_congr_left fun line _ => Trimming.trim_eq line
  obtain ⟨blank, heq, hblank⟩ := splitLines_concat h s
  have hempty : (blank.map fun l => l.dropWhile isWhitespace).filter (· ≠ []) = [] := by
    rw [List.filter_eq_nil_iff]
    intro line hline
    obtain ⟨l, hl, rfl⟩ := List.mem_map.mp hline
    simp [hblank l hl]
  rw [hlines, hlines, heq, List.map_append, List.filter_append, hempty, List.append_nil]

/-- Trimming a text does not change its contents. -/
theorem contents_trim (s : JsString) : contents (Js.trim s) = contents s := by
  obtain ⟨front, back, hs, hfront, hback⟩ := Trimming.exists_trim_eq isWhitespace s
  have hleft : ∀ (front t : JsString), (∀ u ∈ front, isWhitespace u = true) →
      contents (front ++ t) = contents t := by
    intro front t hfront
    induction front with
    | nil => rfl
    | cons u us ih =>
      rw [List.cons_append, contents_cons _ (hfront u (by simp)),
        ih fun v hv => hfront v (by simp [hv])]
  have hright : ∀ (back t : JsString), (∀ u ∈ back, isWhitespace u = true) →
      contents (t ++ back) = contents t := by
    intro back
    induction back with
    | nil => simp
    | cons u us ih =>
      intro t hback
      rw [← List.singleton_append, ← List.append_assoc, ih _ fun v hv => hback v (by simp [hv]),
        contents_concat (hback u (by simp))]
  calc contents (Js.trim s) = contents (Js.trim s ++ back) := (hright back _ hback).symm
    _ = contents (front ++ (Js.trim s ++ back)) := (hleft front _ hfront).symm
    _ = contents s := congrArg contents hs.symm

/-! ## Records on lines -/

/-- A line of a text of records: a record or none, with white space around it, and how the line
ends. -/
structure RecordLine (ν : Type) where
  front : JsString
  record : Option (List (JsString × JsValue ν))
  back : JsString
  /-- Whether the line ends with CR LF, else with LF. -/
  crlf : Bool

/-- White space that does not end a line. -/
def Blank (s : JsString) : Prop := ∀ u ∈ s, isWhitespace u = true ∧ u ≠ unit '\n'

/-- Whether a line has only white space around its record. -/
def RecordLine.WellFormed (line : RecordLine ν) : Prop := Blank line.front ∧ Blank line.back

/-- The text of a record, without indentation. -/
def recordText (numbers : NumberText ν) (record : List (JsString × JsValue ν)) : JsString :=
  Js.stringify numbers 0 (.obj record)

/-- The text of a line without its end. -/
def RecordLine.text (numbers : NumberText ν) (line : RecordLine ν) : JsString :=
  line.front ++ ((line.record.map (recordText numbers)).getD [] ++ line.back)

/-- The text of lines; the last one is not ended. -/
def jsonLines (numbers : NumberText ν) : List (RecordLine ν) → JsString
  | [] => []
  | [line] => line.text numbers
  | line :: next :: lines =>
    line.text numbers ++ ((if line.crlf then [unit '\r'] else []) ++
      unit '\n' :: jsonLines numbers (next :: lines))

/-- The records of lines. -/
def records (lines : List (RecordLine ν)) : List (List (JsString × JsValue ν)) :=
  lines.filterMap RecordLine.record

/-- The text of a record is delimited by braces. -/
theorem recordText_eq (numbers : NumberText ν) (record : List (JsString × JsValue ν)) :
    ∃ s, recordText numbers record = unit '{' :: (s ++ [unit '}']) := by
  unfold recordText Js.stringify
  match record with
  | [] =>
    rw [Js.serialize]
    exact ⟨[], rfl⟩
  | (key, value) :: fields =>
    rw [Js.serialize]
    exact ⟨_, rfl⟩

/-- The text of a record is not trimmed. -/
theorem trim_recordText (record : List (JsString × JsValue ν)) :
    Js.trim (recordText numbers record) = recordText numbers record := by
  obtain ⟨s, hs⟩ := recordText_eq numbers record
  rw [hs]
  exact Trimming.trim_eq_self s (by decide) (by decide)

/-- The text of a record is not empty. -/
theorem recordText_ne_nil (record : List (JsString × JsValue ν)) :
    recordText numbers record ≠ [] := by
  obtain ⟨s, hs⟩ := recordText_eq numbers record
  simp [hs]

/-- The text of a record has no line break. -/
theorem newline_notMem_recordText {record : List (JsString × JsValue ν)}
    (h : Js.Exact numbers (.obj record)) : unit '\n' ∉ recordText numbers record :=
  Js.newline_notMem_serialize [] _ h

/-- `JSON.parse` reads the text of a record. -/
theorem parse_recordText {record : List (JsString × JsValue ν)}
    (h : Js.Exact numbers (.obj record)) :
    Js.parse numbers (recordText numbers record) = some (.obj record) :=
  Js.parse_serialize (fun _ hu => absurd hu (by simp)) h

/-- The text of a line has no line break. -/
theorem newline_notMem_text {line : RecordLine ν} (hline : line.WellFormed)
    (hexact : ∀ record ∈ line.record, Js.Exact numbers (.obj record)) :
    unit '\n' ∉ line.text numbers := by
  intro h
  rcases List.mem_append.mp h with h | h
  · exact (hline.1 _ h).2 rfl
  · rcases List.mem_append.mp h with h | h
    · cases hrecord : line.record with
      | none => simp [hrecord] at h
      | some record =>
        rw [hrecord] at h
        exact newline_notMem_recordText (hexact record hrecord) h
    · exact (hline.2 _ h).2 rfl

/-- What is left of a line after trimming is the text of its record. -/
theorem trim_text {line : RecordLine ν} (hline : line.WellFormed) :
    Js.trim (line.text numbers) = (line.record.map (recordText numbers)).getD [] := by
  have hfront : ∀ u ∈ line.front, isWhitespace u = true := fun u hu => (hline.1 u hu).1
  have hback : ∀ u ∈ line.back, isWhitespace u = true := fun u hu => (hline.2 u hu).1
  have htrim : Js.trim (line.text numbers) =
      Js.trim ((line.record.map (recordText numbers)).getD []) :=
    (Trimming.trim_append_left _ hfront).trans (Trimming.trim_append_right _ hback)
  rw [htrim]
  cases line.record with
  | none => rfl
  | some record => exact trim_recordText record

/-- The contents of a line are the texts of its record, if it has one. -/
theorem filter_trim_text {line : RecordLine ν} (hline : line.WellFormed) :
    [Js.trim (line.text numbers)].filter (· ≠ []) =
      (line.record.map (recordText numbers)).toList := by
  rw [trim_text hline]
  cases line.record with
  | none => rfl
  | some record => simp [recordText_ne_nil]

/-- The contents of lines are the texts of their records. -/
theorem contents_jsonLines : ∀ {lines : List (RecordLine ν)}, (∀ line ∈ lines, line.WellFormed) →
    (∀ record ∈ records lines, Js.Exact numbers (.obj record)) →
      contents (jsonLines numbers lines) = (records lines).map (recordText numbers)
  | [], _, _ => by
    have htrim : Js.trim [] = [] := rfl
    simp [jsonLines, records, contents, splitLines, htrim]
  | [line], hlines, hexact => by
    have hrecord : ∀ record ∈ line.record, Js.Exact numbers (.obj record) := fun record hr =>
      hexact record (List.mem_filterMap.mpr ⟨line, by simp, hr⟩)
    rw [jsonLines, contents_of_notMem (newline_notMem_text (hlines line (by simp)) hrecord),
      filter_trim_text (hlines line (by simp))]
    cases hr : line.record <;> simp [records, hr]
  | line :: next :: lines, hlines, hexact => by
    have hline := hlines line (by simp)
    have hrecord : ∀ record ∈ line.record, Js.Exact numbers (.obj record) := fun record hr =>
      hexact record (List.mem_filterMap.mpr ⟨line, by simp, hr⟩)
    have hrest : ∀ record ∈ records (next :: lines), Js.Exact numbers (.obj record) := by
      intro record hr
      obtain ⟨l, hl, hlr⟩ := List.mem_filterMap.mp hr
      exact hexact record (List.mem_filterMap.mpr ⟨l, by simp [hl], hlr⟩)
    have ih := contents_jsonLines (fun l hl => hlines l (List.mem_cons_of_mem _ hl)) hrest
    -- The carriage return is white space at the end of the line.
    have hreturn : ∀ u ∈ (if line.crlf then [unit '\r'] else []), isWhitespace u = true := by
      split_ifs
      · intro u hu
        rw [List.mem_singleton.mp hu]
        decide
      · simp
    have hbreak : unit '\n' ∉ line.text numbers ++ (if line.crlf then [unit '\r'] else []) := by
      rw [List.mem_append, not_or]
      refine ⟨newline_notMem_text hline hrecord, ?_⟩
      split_ifs
      · decide
      · simp
    have htrim : Js.trim (line.text numbers ++ (if line.crlf then [unit '\r'] else [])) =
        Js.trim (line.text numbers) := Trimming.trim_append_right _ hreturn
    rw [jsonLines, ← List.append_assoc, contents_append _ hbreak, htrim, filter_trim_text hline, ih]
    cases hr : line.record <;> simp [records, hr]

/-- The loop over the lines collects the records. -/
theorem parseLines_eq : ∀ (lines : List JsString) (i : ℕ) (accounts : List (JsValue ν))
    {rs : List (List (JsString × JsValue ν))}, (∀ r ∈ rs, Js.Exact numbers (.obj r)) →
      (lines.map Js.trim).filter (· ≠ []) = rs.map (recordText numbers) →
        parseLines numbers i accounts lines = .ok (accounts ++ rs.map .obj)
  | [], i, accounts, rs, _, h => by
    have hrs : rs = [] := by simpa using h.symm
    simp [parseLines, hrs]
  | line :: lines, i, accounts, rs, hexact, h => by
    rw [List.map_cons] at h
    rw [parseLines]
    by_cases hline : Js.trim line = []
    · rw [List.filter_cons_of_neg (by simp [hline])] at h
      rw [if_pos hline]
      exact parseLines_eq lines (i + 1) accounts hexact h
    · rw [List.filter_cons_of_pos (by simp [hline])] at h
      cases rs with
      | nil => simp at h
      | cons r rs =>
        rw [List.map_cons, List.cons.injEq] at h
        have hparse := parse_recordText (hexact r (by simp))
        have ih := parseLines_eq lines (i + 1) (accounts ++ [.obj r])
          (fun r hr => hexact r (by simp [hr])) h.2
        rw [if_neg hline, h.1, hparse]
        simpa [isObject] using ih

/-- Lines without records are white space. -/
theorem isWhitespace_of_records_eq_nil {lines : List (RecordLine ν)}
    (hlines : ∀ line ∈ lines, line.WellFormed) (hnone : records lines = []) :
    ∀ u ∈ jsonLines numbers lines, isWhitespace u = true := by
  -- The induction is on the lines, between which there are only ends of lines.
  induction lines with
  | nil =>
    intro u hu
    cases hu
  | cons line lines ih =>
    intro u hu
    obtain ⟨hrecord, hrest⟩ : line.record = none ∧ records lines = [] := by
      cases hr : line.record <;> simp_all [records]
    have htext : ∀ u ∈ line.text numbers, isWhitespace u = true := by
      intro u hu
      simp only [RecordLine.text, hrecord, Option.map_none, Option.getD_none, List.nil_append,
        List.mem_append] at hu
      exact hu.elim (fun h => ((hlines line (by simp)).1 u h).1)
        fun h => ((hlines line (by simp)).2 u h).1
    have ih := ih (fun l hl => hlines l (List.mem_cons_of_mem _ hl)) hrest
    cases lines with
    | nil => exact htext u hu
    | cons next lines =>
      simp only [jsonLines, List.mem_append, List.mem_cons] at hu
      rcases hu with hu | hu | rfl | hu
      · exact htext u hu
      · split_ifs at hu
        · rw [List.mem_singleton.mp hu]
          decide
        · simp at hu
      · decide
      · exact ih u hu

/-- The text of lines is the text of their first record with white space in front and after it,
which ends the text when there is no other record. -/
theorem jsonLines_eq (numbers : NumberText ν) :
    ∀ {lines : List (RecordLine ν)} {r : List (JsString × JsValue ν)}
    {rs : List (List (JsString × JsValue ν))}, (∀ line ∈ lines, line.WellFormed) →
      records lines = r :: rs → ∃ front tail,
        jsonLines numbers lines = front ++ (recordText numbers r ++ tail) ∧
          (∀ u ∈ front, isWhitespace u = true) ∧ (∀ u ∈ tail.head?, isWhitespace u = true) ∧
          (rs = [] → ∀ u ∈ tail, isWhitespace u = true) ∧
          (rs ≠ [] → ∃ u ∈ tail, isWhitespace u = false)
  | [], _, _, _, h => by simp [records] at h
  | line :: lines, r, rs, hlines, h => by
    have hfront : ∀ u ∈ line.front, isWhitespace u = true := fun u hu =>
      ((hlines line (by simp)).1 u hu).1
    have hback : ∀ u ∈ line.back, isWhitespace u = true := fun u hu =>
      ((hlines line (by simp)).2 u hu).1
    have hrest : ∀ l ∈ lines, l.WellFormed := fun l hl => hlines l (List.mem_cons_of_mem _ hl)
    -- What ends a line that is not the last one.
    obtain ⟨tail, htail, hhead, hafter⟩ : ∃ tail,
        jsonLines numbers (line :: lines) = line.text numbers ++ tail ∧
          (∀ u ∈ tail.head?, isWhitespace u = true) ∧
          ∃ eol, tail = eol ++ jsonLines numbers lines ∧ ∀ u ∈ eol, isWhitespace u = true := by
      match lines with
      | [] => exact ⟨[], by simp [jsonLines], by simp, [], by simp [jsonLines], by simp⟩
      | next :: lines =>
        refine ⟨(if line.crlf then [unit '\r'] else []) ++
          unit '\n' :: jsonLines numbers (next :: lines), by rw [jsonLines], ?_,
          (if line.crlf then [unit '\r'] else []) ++ [unit '\n'], by simp, ?_⟩
        · cases line.crlf
          · intro u hu
            obtain rfl : unit '\n' = u := by simpa using hu
            decide
          · intro u hu
            obtain rfl : unit '\r' = u := by simpa using hu
            decide
        · cases line.crlf
          · intro u hu
            obtain rfl : u = unit '\n' := by simpa using hu
            decide
          · intro u hu
            have hu : u = unit '\r' ∨ u = unit '\n' := by simpa using hu
            rcases hu with rfl | rfl <;> decide
    obtain ⟨eol, heol, hspace⟩ := hafter
    cases hr : line.record with
    | none =>
      have hrecords : records lines = r :: rs := by simpa [records, hr] using h
      obtain ⟨front, tail', htext, hfront', hhead', hlast, hmore⟩ :=
        jsonLines_eq numbers hrest hrecords
      refine ⟨line.front ++ (line.back ++ (eol ++ front)), tail', ?_, ?_, hhead', hlast, hmore⟩
      · rw [htail, heol, htext]
        simp [RecordLine.text, hr]
      · intro u hu
        simp only [List.mem_append] at hu
        rcases hu with hu | hu | hu | hu
        · exact hfront u hu
        · exact hback u hu
        · exact hspace u hu
        · exact hfront' u hu
    | some record =>
      obtain ⟨rfl, hrs⟩ : record = r ∧ records lines = rs := by simpa [records, hr] using h
      refine ⟨line.front, line.back ++ tail, ?_, hfront, ?_, ?_, ?_⟩
      · rw [htail]
        simp [RecordLine.text, hr]
      · intro u hu
        cases hb : line.back with
        | nil => exact hhead u (by simpa [hb] using hu)
        | cons v vs =>
          obtain rfl : v = u := by simpa [hb] using hu
          exact hback v (by simp [hb])
      · intro hnone u hu
        rw [heol] at hu
        simp only [List.mem_append] at hu
        rcases hu with hu | hu | hu
        · exact hback u hu
        · exact hspace u hu
        · exact isWhitespace_of_records_eq_nil hrest (hrs.trans hnone) u hu
      · intro hsome
        obtain ⟨r', rs', hrs'⟩ := List.exists_cons_of_ne_nil hsome
        obtain ⟨front, tail', htext, -⟩ := jsonLines_eq numbers hrest (hrs.trans hrs')
        obtain ⟨s, hs⟩ := recordText_eq numbers r'
        refine ⟨unit '{', ?_, by decide⟩
        rw [heol, htext, hs]
        simp

/-- White space is not part of a number. -/
theorem isNumeralUnit_of_isWhitespace {u : UInt16} (h : isWhitespace u = true) :
    Js.isNumeralUnit u = false := by
  by_contra hu
  rw [Bool.not_eq_false] at hu
  simp only [Js.isNumeralUnit, Bool.or_eq_true, Bool.and_eq_true, decide_eq_true_eq,
    List.mem_cons, List.not_mem_nil, or_false] at hu
  rcases hu with hu | rfl | rfl | rfl | rfl | rfl
  · simp only [isWhitespace, List.mem_cons, List.not_mem_nil, or_false, Bool.or_eq_true,
      Bool.and_eq_true, decide_eq_true_eq] at h
    omega
  all_goals exact absurd h (by decide)

/-- What JSON takes for white space is white space. -/
theorem isWhitespace_of_isJsonSpace {u : UInt16} (h : Js.isJsonSpace u = true) :
    isWhitespace u = true := by
  simp only [Js.isJsonSpace, List.mem_cons, List.not_mem_nil, or_false, decide_eq_true_eq] at h
  simp only [isWhitespace, List.mem_cons, List.not_mem_nil, or_false, Bool.or_eq_true,
    Bool.and_eq_true, decide_eq_true_eq]
  omega

/-- Several records are not one JSON value: it ends after the first of them. -/
theorem parse_trim_eq_none {r : List (JsString × JsValue ν)} {front tail : JsString}
    (hexact : Js.Exact numbers (.obj r)) (hfront : ∀ u ∈ front, isWhitespace u = true)
    (hhead : ∀ u ∈ tail.head?, isWhitespace u = true)
    (htail : ∃ u ∈ tail, isWhitespace u = false) :
    Js.parse numbers (Js.trim (front ++ (recordText numbers r ++ tail))) = none := by
  obtain ⟨t, c, back, rfl, hc, hback⟩ := Trimming.exists_last htail
  obtain ⟨s, hs⟩ := recordText_eq numbers r
  -- Trimming stops at the record in front and at the last character that is not blank behind.
  have htrim : Js.trim (front ++ (recordText numbers r ++ (t ++ [c] ++ back))) =
      recordText numbers r ++ (t ++ [c]) := by
    have hself : Js.trim (recordText numbers r ++ (t ++ [c])) = recordText numbers r ++
        (t ++ [c]) := by
      rw [hs, List.cons_append, ← List.append_assoc]
      exact Trimming.trim_eq_self _ (by decide) hc
    calc Js.trim (front ++ (recordText numbers r ++ (t ++ [c] ++ back)))
        = Js.trim (recordText numbers r ++ (t ++ [c] ++ back)) :=
          Trimming.trim_append_left _ hfront
      _ = Js.trim (recordText numbers r ++ (t ++ [c]) ++ back) := by simp only [List.append_assoc]
      _ = Js.trim (recordText numbers r ++ (t ++ [c])) := Trimming.trim_append_right _ hback
      _ = recordText numbers r ++ (t ++ [c]) := hself
  -- The record is read, but something is left after it, so the whole text is a syntax error.
  have hstops : Js.Stops (t ++ [c]) := by
    cases t with
    | nil =>
      have hspace := hhead c (by simp)
      exact absurd (hspace.symm.trans hc) (by decide)
    | cons u us => exact Js.stops_cons _ (isNumeralUnit_of_isWhitespace (hhead u (by simp)))
  have hrest : Js.skipSpace (t ++ [c]) ≠ [] := by
    intro hnil
    have hspace := isWhitespace_of_isJsonSpace (List.dropWhile_eq_nil_iff.mp hnil c (by simp))
    exact absurd (hspace.symm.trans hc) (by decide)
  rw [htrim]
  exact Js.parse_eq_none (fun _ hu => absurd hu (by simp)) hexact hstops hrest

/-- The values of records are exact when the records are. -/
theorem itemsExact_of_forall : ∀ {objects : List (List (JsString × JsValue ν))},
    (∀ o ∈ objects, Js.Exact numbers (.obj o)) →
      Js.ItemsExact numbers (objects.map JsValue.obj)
  | [], _ => by simp [Js.ItemsExact]
  | o :: objects, h => by
    rw [List.map_cons, Js.ItemsExact]
    exact ⟨h o (by simp), itemsExact_of_forall fun o ho => h o (by simp [ho])⟩

/-- The text of an array of records is read as the records. -/
theorem detectAndParse_array {objects : List (List (JsString × JsValue ν))} (hne : objects ≠ [])
    (hexact : ∀ o ∈ objects, Js.Exact numbers (.obj o)) (gap : ℕ) {front back : JsString}
    (hfront : ∀ u ∈ front, isWhitespace u = true) (hback : ∀ u ∈ back, isWhitespace u = true)
    (hsize : Js.blobSize (Js.trim (front ++
      (Js.stringify numbers gap (.arr (objects.map .obj)) ++ back))) ≤ maxInputSize) :
    detectAndParse numbers (front ++ (Js.stringify numbers gap (.arr (objects.map .obj)) ++ back)) =
      .ok { accounts := objects.map .obj, format := .jsonArray } := by
  have hspaces : Js.IsSpaces (List.replicate (min gap 10) (unit ' ')) := by
    intro u hu
    rw [List.eq_of_mem_replicate hu]
    decide
  have harray : Js.Exact numbers (.arr (objects.map .obj)) := by
    rw [Js.Exact]
    exact itemsExact_of_forall hexact
  have hparse := Js.parse_serialize hspaces harray
  obtain ⟨o, os, ho⟩ := List.exists_cons_of_ne_nil hne
  -- The text starts and ends with brackets, so trimming leaves nothing of what is around it.
  obtain ⟨s, hs⟩ : ∃ s, Js.stringify numbers gap (.arr (objects.map .obj)) =
      unit '[' :: (s ++ [unit ']']) := by
    unfold Js.stringify
    rw [ho, List.map_cons, Js.serialize]
    exact ⟨_, rfl⟩
  have htrim : Js.trim (front ++ (Js.stringify numbers gap (.arr (objects.map .obj)) ++ back)) =
      Js.stringify numbers gap (.arr (objects.map .obj)) := by
    refine (Trimming.trim_append_left _ hfront).trans
      ((Trimming.trim_append_right _ hback).trans ?_)
    rw [hs]
    exact Trimming.trim_eq_self s (by decide) (by decide)
  rw [htrim] at hsize
  have hnil : Js.stringify numbers gap (.arr (objects.map .obj)) ≠ [] := by simp [hs]
  have hobjects : ∀ o : List (JsString × JsValue ν), isObject (.obj o) = true := fun _ => rfl
  unfold detectAndParse
  rw [htrim]
  simp only [hnil, if_false, not_lt.mpr hsize]
  rw [show Js.parse numbers (Js.stringify numbers gap (.arr (objects.map .obj))) = _ from hparse]
  simp [hobjects, ho]

/-- Lines of records are read as the records. -/
theorem detectAndParse_lines {lines : List (RecordLine ν)} (hne : records lines ≠ [])
    (hexact : ∀ o ∈ records lines, Js.Exact numbers (.obj o))
    (hlines : ∀ line ∈ lines, line.WellFormed)
    (hsize : Js.blobSize (Js.trim (jsonLines numbers lines)) ≤ maxInputSize) :
    (detectAndParse numbers (jsonLines numbers lines)).map ParsedInput.accounts =
      .ok ((records lines).map .obj) := by
  obtain ⟨r, rs, hrecords⟩ := List.exists_cons_of_ne_nil hne
  obtain ⟨front, tail, htext, hfront, hhead, hlast, hmore⟩ := jsonLines_eq numbers hlines hrecords
  have hr : Js.Exact numbers (.obj r) := hexact r (by simp [hrecords])
  have hnil : Js.trim (jsonLines numbers lines) ≠ [] := by
    intro hnil
    have hcontents := contents_trim (jsonLines numbers lines)
    rw [hnil, contents_jsonLines hlines hexact, hrecords] at hcontents
    have hempty : contents [] = [] := by
      have htrim : Js.trim [] = [] := rfl
      simp [contents, splitLines, htrim]
    simp [hempty] at hcontents
  unfold detectAndParse
  simp only [hnil, if_false, not_lt.mpr hsize]
  by_cases hrs : rs = []
  · -- One record is the whole text.
    have htrim : Js.trim (jsonLines numbers lines) = recordText numbers r := by
      rw [htext]
      exact (Trimming.trim_append_left _ hfront).trans
        ((Trimming.trim_append_right _ (hlast hrs)).trans (trim_recordText r))
    rw [htrim, parse_recordText hr, hrecords, hrs]
    rfl
  · -- Several records are a syntax error, and the lines are read.
    have hparse : Js.parse numbers (Js.trim (jsonLines numbers lines)) = none := by
      rw [htext]
      exact parse_trim_eq_none hr hfront hhead (hmore hrs)
    have hcontents :
        ((splitLines (Js.trim (jsonLines numbers lines))).map Js.trim).filter (· ≠ []) =
        (records lines).map (recordText numbers) :=
      (contents_trim _).trans (contents_jsonLines hlines hexact)
    have hloop := parseLines_eq _ 0 [] hexact hcontents
    rw [hparse, hloop]
    simp [hrecords, Except.map, bind, Except.bind, pure, Except.pure]

/-- Records are read the same from the text of their array, with any indentation, and from lines
with one record each, with any blank lines, line ends and white space around them. -/
theorem same_accounts {objects : List (List (JsString × JsValue ν))} (hne : objects ≠ [])
    (hexact : ∀ o ∈ objects, Js.Exact numbers (.obj o)) :
    (∀ (gap : ℕ) (front back : JsString), (∀ u ∈ front, isWhitespace u = true) →
      (∀ u ∈ back, isWhitespace u = true) →
        Js.blobSize (Js.trim (front ++
          (Js.stringify numbers gap (.arr (objects.map .obj)) ++ back))) ≤ maxInputSize →
          (detectAndParse numbers (front ++
            (Js.stringify numbers gap (.arr (objects.map .obj)) ++ back))).map
              ParsedInput.accounts = .ok (objects.map .obj)) ∧
      ∀ lines : List (RecordLine ν), (∀ line ∈ lines, line.WellFormed) → records lines = objects →
        Js.blobSize (Js.trim (jsonLines numbers lines)) ≤ maxInputSize →
          (detectAndParse numbers (jsonLines numbers lines)).map ParsedInput.accounts =
            .ok (objects.map .obj) := by
  refine ⟨?_, ?_⟩
  · intro gap front back hfront hback hsize
    rw [detectAndParse_array hne hexact gap hfront hback hsize]
    rfl
  · rintro lines hlines rfl hsize
    exact detectAndParse_lines hne hexact hlines hsize

/-- Natural numbers as the numbers of values. -/
def naturals : NumberText ℕ where
  isFinite := fun _ => true
  toText := Js.decimal
  ofText := fun s => Decimal.value (s.map fun u => u.toNat - 48)
  ofInt := Int.toNat

/-- Two records on lines of which one is blank. -/
def twoRecords : List (RecordLine ℕ) :=
  [⟨[], some [(text "a", .num 1)], [], true⟩, ⟨text " ", none, [], false⟩,
    ⟨text " ", some [], text " ", false⟩]

/-- The two records are read from their array and from their lines. -/
theorem same_accounts_two :
    (detectAndParse naturals (Js.stringify naturals 2
      (.arr [.obj [(text "a", .num 1)], .obj []]))).map ParsedInput.accounts =
        .ok [.obj [(text "a", .num 1)], .obj []] ∧
      (detectAndParse naturals (jsonLines naturals twoRecords)).map ParsedInput.accounts =
        .ok [.obj [(text "a", .num 1)], .obj []] := by
  have hnumber : Js.isNumeral (Js.decimal 1) = true ∧ naturals.ofText (Js.decimal 1) = 1 := by
    decide
  have hexact : ∀ o ∈ [[(text "a", JsValue.num 1)], []], Js.Exact naturals (.obj o) := by
    intro o ho
    simp only [List.mem_cons, List.not_mem_nil, or_false] at ho
    rcases ho with rfl | rfl
    · simp only [Js.Exact, Js.FieldsExact, and_true]
      exact ⟨rfl, rfl, hnumber⟩
    · simp only [Js.Exact, Js.FieldsExact, and_true]
      rfl
  have hlines : ∀ line ∈ twoRecords, line.WellFormed := by
    have hspace : (text " ").all (fun u => isWhitespace u && u != unit '\n') = true := by decide
    have hblank : ∀ s ∈ [[], text " "], Blank s := by
      intro s hs u hu
      simp only [List.mem_cons, List.not_mem_nil, or_false] at hs
      rcases hs with rfl | rfl
      · cases hu
      · have hu' := List.all_eq_true.mp hspace u hu
        rw [Bool.and_eq_true, bne_iff_ne] at hu'
        exact hu'
    intro line hline
    simp only [twoRecords, List.mem_cons, List.not_mem_nil, or_false] at hline
    rcases hline with rfl | rfl | rfl
    · exact ⟨hblank _ (by simp), hblank _ (by simp)⟩
    · exact ⟨hblank _ (by simp), hblank _ (by simp)⟩
    · exact ⟨hblank _ (by simp), hblank _ (by simp)⟩
  have hsame := @same_accounts ℕ naturals _ (by simp) hexact
  refine ⟨?_, hsame.2 twoRecords hlines rfl (by decide +kernel)⟩
  have harray := hsame.1 2 [] [] (by simp) (by simp) (by decide +kernel)
  rwa [List.nil_append, List.append_nil] at harray

end CdkSystem
