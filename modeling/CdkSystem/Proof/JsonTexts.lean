import CdkSystem.JsValue

/-!
# What is written is read

`JSON.parse` reads what `JSON.stringify` writes (`readValue_serialize`), with any text after it that
does not go on with a number. The induction is on the value; the fuel of the reader is bounded by
the length of the text.

Whitespace that the writer puts between the items of a value is skipped by the reader wherever it
may stand. A text may go on with anything that ends a number (`Stops`), which is what makes the
induction go through: inside an array or an object a value is followed by a comma or a bracket.
Texts written without a gap have no line break in them (`newline_notMem_serialize`), so they can
stand on lines of their own.
-/

namespace CdkSystem.Js

variable {ν : Type} {numbers : NumberText ν} {gap : JsString}

/-! ## Numbers -/

/-- What is before the rest of a text consists of units of numbers. -/
def Consumed (s rest : JsString) : Prop :=
  ∃ front, s = front ++ rest ∧ ∀ u ∈ front, isNumeralUnit u = true

/-- Nothing is consumed where reading has left the text as it is. -/
theorem Consumed.refl (s : JsString) : Consumed s s := ⟨[], rfl, by simp⟩

/-- One part after another is consumed, so both of them together are. -/
theorem Consumed.trans {s t rest : JsString} (hst : Consumed s t) (ht : Consumed t rest) :
    Consumed s rest := by
  obtain ⟨front, rfl, hfront⟩ := hst
  obtain ⟨next, rfl, hnext⟩ := ht
  refine ⟨front ++ next, by simp, fun u hu => ?_⟩
  rcases List.mem_append.mp hu with hu | hu
  · exact hfront u hu
  · exact hnext u hu

/-- One unit of a numeral is consumed where reading goes on behind it. -/
theorem Consumed.unit {u : UInt16} (us : JsString) (h : isNumeralUnit u = true) :
    Consumed (u :: us) us := ⟨[u], rfl, by simpa using h⟩

/-- A digit is a unit of numbers. -/
theorem isNumeralUnit_of_isDigit {u : UInt16} (h : isDigit u = true) : isNumeralUnit u = true := by
  unfold isDigit at h
  unfold isNumeralUnit
  rw [h, Bool.true_or]

/-- The digits that are read are consumed, and they are units of a numeral. -/
theorem consumed_digits1 {s rest : JsString} (h : digits1 s = some rest) : Consumed s rest := by
  unfold digits1 at h
  split_ifs at h
  obtain rfl := Option.some.inj h
  refine ⟨s.takeWhile isDigit, List.takeWhile_append_dropWhile.symm, fun u hu => ?_⟩
  exact isNumeralUnit_of_isDigit (List.mem_takeWhile_imp hu)

/-- The integer part of a number is consumed. -/
theorem consumed_integerPart {s rest : JsString} (h : integerPart s = some rest) :
    Consumed s rest := by
  match s, h with
  | u :: us, h =>
    simp only [integerPart] at h
    split_ifs at h with hu
    · obtain rfl := Option.some.inj h
      exact Consumed.unit _ (hu ▸ by decide)
    · exact consumed_digits1 h

/-- The fraction of a number is consumed. -/
theorem consumed_fractionPart {s rest : JsString} (h : fractionPart s = some rest) :
    Consumed s rest := by
  match s, h with
  | [], h =>
    obtain rfl := Option.some.inj h
    exact Consumed.refl _
  | u :: us, h =>
    simp only [fractionPart] at h
    split_ifs at h with hu
    · exact (Consumed.unit us (hu ▸ by decide)).trans (consumed_digits1 h)
    · obtain rfl := Option.some.inj h
      exact Consumed.refl _

/-- The exponent of a number is consumed. -/
theorem consumed_exponentPart {s rest : JsString} (h : exponentPart s = some rest) :
    Consumed s rest := by
  match s, h with
  | [], h =>
    obtain rfl := Option.some.inj h
    exact Consumed.refl _
  | u :: [], h =>
    simp only [exponentPart] at h
    split_ifs at h
    obtain rfl := Option.some.inj h
    exact Consumed.refl _
  | u :: v :: vs, h =>
    simp only [exponentPart] at h
    split_ifs at h with hu hv
    · refine (Consumed.unit (v :: vs) ?_).trans ((Consumed.unit vs ?_).trans (consumed_digits1 h))
      · rcases hu with rfl | rfl <;> decide
      · rcases hv with rfl | rfl <;> decide
    · refine (Consumed.unit (v :: vs) ?_).trans (consumed_digits1 h)
      rcases hu with rfl | rfl <;> decide
    · obtain rfl := Option.some.inj h
      exact Consumed.refl _

/-- A number consists of units of numbers, at least one. -/
theorem units_of_isNumeral {s : JsString} (h : isNumeral s = true) :
    s ≠ [] ∧ ∀ u ∈ s, isNumeralUnit u = true := by
  have hparts : ∀ {t : JsString}, ((integerPart t).bind fractionPart).bind exponentPart = some [] →
      t ≠ [] ∧ Consumed t [] := by
    intro t ht
    obtain ⟨b, hb, hexp⟩ := Option.bind_eq_some_iff.mp ht
    obtain ⟨a, ha, hfrac⟩ := Option.bind_eq_some_iff.mp hb
    refine ⟨?_, (consumed_integerPart ha).trans
      ((consumed_fractionPart hfrac).trans (consumed_exponentPart hexp))⟩
    rintro rfl
    simp [integerPart] at ha
  have hconsumed : s ≠ [] ∧ Consumed s [] := by
    match s, h with
    | [], h => simp [isNumeral, integerPart] at h
    | u :: us, h =>
      refine ⟨by simp, ?_⟩
      simp only [isNumeral, beq_iff_eq] at h
      split_ifs at h with hu
      · exact (Consumed.unit us (hu ▸ by decide)).trans (hparts h).2
      · exact (hparts h).2
  obtain ⟨hne, front, hs, hfront⟩ := hconsumed
  rw [List.append_nil] at hs
  exact ⟨hne, hs ▸ hfront⟩

/-- Whether a text does not go on with a number. -/
def Stops (rest : JsString) : Prop := rest.head?.all fun u => !isNumeralUnit u

/-- A number is read up to where it stops. -/
theorem readNumber_append (numbers : NumberText ν) {s rest : JsString} (h : isNumeral s = true)
    (hrest : Stops rest) :
    readNumber numbers (s ++ rest) = some (.num (numbers.ofText s), rest) := by
  have hall := (units_of_isNumeral h).2
  have htake : (s ++ rest).takeWhile isNumeralUnit = s := by
    rw [List.takeWhile_append_of_pos hall]
    cases rest with
    | nil => simp
    | cons u us =>
      have hu : isNumeralUnit u = false := by simpa [Stops] using hrest
      simp [hu]
  have hdrop : (s ++ rest).dropWhile isNumeralUnit = rest := by
    rw [List.dropWhile_append_of_pos hall]
    cases rest with
    | nil => rfl
    | cons u us =>
      have hu : isNumeralUnit u = false := by simpa [Stops] using hrest
      simp [hu]
  unfold readNumber
  rw [htake, hdrop]
  simp [h]

/-! ## Strings -/

/-- A unit that needs no escape is read as it is. -/
theorem readString_literal {u : UInt16} {us s rest : JsString} (hquote : u ≠ unit '"')
    (hslash : u ≠ unit '\\') (hcontrol : ¬u.toNat < 0x20) (h : readString us = some (s, rest)) :
    readString (u :: us) = some (u :: s, rest) := by
  rw [readString.eq_def]
  simp [hquote, hslash, hcontrol, h]

/-- An escape of one character is read. -/
theorem readString_simple {e u : UInt16} {us s rest : JsString} (he : e ≠ unit 'u')
    (hu : simpleEscape? e = some u) (h : readString us = some (s, rest)) :
    readString (unit '\\' :: e :: us) = some (u :: s, rest) := by
  have hne : unit '\\' ≠ unit '"' := by decide
  rw [readString.eq_def]
  simp [hne, he, hu, h]

/-- A hexadecimal digit that was written is read as its value. -/
theorem hexDigit?_hexUnit {d : ℕ} (h : d < 16) : hexDigit? (hexUnit d) = some d := by
  revert h d
  decide

/-- An escape by number is read as the unit for which it was written. -/
theorem readString_unicode {u : UInt16} {us s rest : JsString}
    (h : readString us = some (s, rest)) :
    readString (unicodeEscape u ++ us) = some (u :: s, rest) := by
  have hlt := u.toNat_lt
  have hne : unit '\\' ≠ unit '"' := by decide
  have hsum : u.toNat / 4096 * 4096 + u.toNat / 256 % 16 * 256 + u.toNat / 16 % 16 * 16 +
      u.toNat % 16 = u.toNat := by omega
  have hvalue := congrArg UInt16.ofNat hsum
  rw [UInt16.ofNat_toNat] at hvalue
  have ha := hexDigit?_hexUnit (d := u.toNat / 4096) (by omega)
  have hb := hexDigit?_hexUnit (d := u.toNat / 256 % 16) (by omega)
  have hc := hexDigit?_hexUnit (d := u.toNat / 16 % 16) (by omega)
  have hd := hexDigit?_hexUnit (d := u.toNat % 16) (by omega)
  rw [unicodeEscape, readString.eq_def]
  simp [hne, ha, hb, hc, hd, h, hvalue, -UInt16.ofNat_add, -UInt16.ofNat_mul]

/-- A unit that is written by itself is read. -/
theorem readString_quoteUnit {u : UInt16} {us s rest : JsString}
    (h : readString us = some (s, rest)) :
    readString (quoteUnit u ++ us) = some (u :: s, rest) := by
  unfold quoteUnit
  split_ifs with hb ht hn hf hr hquote hslash hescape
  · exact hb ▸ readString_simple (by decide) (by decide) h
  · exact ht ▸ readString_simple (by decide) (by decide) h
  · exact hn ▸ readString_simple (by decide) (by decide) h
  · exact hf ▸ readString_simple (by decide) (by decide) h
  · exact hr ▸ readString_simple (by decide) (by decide) h
  · exact hquote ▸ readString_simple (by decide) (by decide) h
  · exact hslash ▸ readString_simple (by decide) (by decide) h
  · exact readString_unicode h
  · exact readString_literal hquote hslash (fun hlt => hescape (.inl hlt)) h

/-- A surrogate needs no escape to be read back as the unit that it is. -/
theorem surrogate_literal {u : UInt16} {k : ℕ} (h : u.toNat / 0x400 = k) (hk : 0 < k) :
    u ≠ unit '"' ∧ u ≠ unit '\\' ∧ ¬u.toNat < 0x20 := by
  refine ⟨?_, ?_, by omega⟩
  · rintro rfl
    have : (unit '"').toNat = 34 := by decide
    omega
  · rintro rfl
    have : (unit '\\').toNat = 92 := by decide
    omega

/-- A string is read up to its closing quotation mark. -/
theorem readString_quoteUnits (s rest : JsString) :
    readString (quoteUnits s ++ unit '"' :: rest) = some (s, rest) := by
  have hend : readString (unit '"' :: rest) = some ([], rest) := by
    rw [readString.eq_def]
    simp
  induction s using quoteUnits.induct with
  | case1 => exact hend
  | case2 u => exact readString_quoteUnit hend
  | case3 u v us hpair ih =>
    obtain ⟨hu, hu', hu''⟩ := surrogate_literal hpair.1 (by decide)
    obtain ⟨hv, hv', hv''⟩ := surrogate_literal hpair.2 (by decide)
    rw [quoteUnits, if_pos hpair, List.cons_append, List.cons_append]
    exact readString_literal hu hu' hu'' (readString_literal hv hv' hv'' ih)
  | case4 u v us hpair ih =>
    rw [quoteUnits, if_neg hpair, List.append_assoc]
    exact readString_quoteUnit ih

/-! ## Values -/

mutual

/-- Whether a value is one that JSON texts can carry: its numbers have texts that denote them, and
its objects enumerate their properties in the order in which they would be created again. -/
def Exact (numbers : NumberText ν) : JsValue ν → Prop
  | .num n => numbers.isFinite n = true ∧ isNumeral (numbers.toText n) = true ∧
      numbers.ofText (numbers.toText n) = n
  | .arr items => ItemsExact numbers items
  | .obj fields => fields.foldl (fun fs f => setProperty fs f.1 f.2) [] = fields ∧
      FieldsExact numbers fields
  | _ => True

/-- Whether the items are such values. -/
def ItemsExact (numbers : NumberText ν) : List (JsValue ν) → Prop
  | [] => True
  | item :: items => Exact numbers item ∧ ItemsExact numbers items

/-- Whether the values of the fields are such values. -/
def FieldsExact (numbers : NumberText ν) : List (JsString × JsValue ν) → Prop
  | [] => True
  | (_, value) :: fields => Exact numbers value ∧ FieldsExact numbers fields

end

/-- Whether a text is white space. -/
def IsSpaces (s : JsString) : Prop := ∀ u ∈ s, isJsonSpace u = true

/-- There is no white space to skip at the front. -/
theorem skipSpace_self {u : UInt16} (us : JsString) (hu : isJsonSpace u = false) :
    skipSpace (u :: us) = u :: us := by
  unfold skipSpace
  simp [hu]

/-- White space at the front is skipped up to the first other unit. -/
theorem skipSpace_append {front us : JsString} {u : UInt16} (hfront : IsSpaces front)
    (hu : isJsonSpace u = false) : skipSpace (front ++ u :: us) = u :: us := by
  unfold skipSpace
  rw [List.dropWhile_append_of_pos hfront]
  simp [hu]

/-- A line break is white space. -/
theorem isSpaces_lineBreak (gap : JsString) {indent : JsString} (h : IsSpaces indent) :
    IsSpaces (lineBreak gap indent) := by
  unfold lineBreak
  split_ifs
  · exact fun u hu => absurd hu (by simp)
  · intro u hu
    rcases List.mem_cons.mp hu with rfl | hu
    · decide
    · exact h u hu

/-- Two texts of white space. -/
theorem IsSpaces.append {s t : JsString} (hs : IsSpaces s) (ht : IsSpaces t) : IsSpaces (s ++ t) :=
  fun u hu => (List.mem_append.mp hu).elim (hs u) (ht u)

/-- A unit that is not part of a number stops a number. -/
theorem stops_cons {u : UInt16} (us : JsString) (hu : isNumeralUnit u = false) :
    Stops (u :: us) := by
  simp [Stops, hu]

/-- White space or another unit that is not part of a number stops a number. -/
theorem stops_append {front us : JsString} {u : UInt16} (hfront : IsSpaces front)
    (hu : isNumeralUnit u = false) : Stops (front ++ u :: us) := by
  have hspace : ∀ v, isJsonSpace v = true → isNumeralUnit v = false := by
    intro v hv
    have hmem : v.toNat ∈ [0x09, 0x0A, 0x0D, 0x20] := by simpa [isJsonSpace] using hv
    have hne : ∀ w : UInt16, w.toNat ∉ [0x09, 0x0A, 0x0D, 0x20] → v ≠ w := by
      rintro w hw rfl
      exact hw hmem
    simp only [List.mem_cons, List.not_mem_nil, or_false] at hmem
    simp only [isNumeralUnit, List.mem_cons, List.not_mem_nil, or_false, Bool.or_eq_false_iff,
      Bool.and_eq_false_iff, decide_eq_false_iff_not, not_or]
    exact ⟨by omega, hne _ (by decide), hne _ (by decide), hne _ (by decide), hne _ (by decide),
      hne _ (by decide)⟩
  cases front with
  | nil => simp [Stops, hu]
  | cons v front => simp [Stops, hspace v (hfront v (by simp))]

/-- The text of a value starts with a unit that is no white space and does not end an array. -/
theorem serialize_cons (gap indent : JsString) {value : JsValue ν} (h : Exact numbers value) :
    ∃ u us, serialize numbers gap indent value = u :: us ∧ isJsonSpace u = false ∧
      u ≠ unit ']' := by
  match value, h with
  | .null, _ => exact ⟨unit 'n', text "ull", by rw [serialize]; decide, by decide, by decide⟩
  | .bool true, _ => exact ⟨unit 't', text "rue", by rw [serialize]; decide, by decide, by decide⟩
  | .bool false, _ => exact ⟨unit 'f', text "alse", by rw [serialize]; decide, by decide, by decide⟩
  | .num n, h =>
    rw [Exact] at h
    obtain ⟨hne, hall⟩ := units_of_isNumeral h.2.1
    obtain ⟨u, us, hu⟩ := List.exists_cons_of_ne_nil hne
    have hnumeral : isNumeralUnit u = true := hall u (by simp [hu])
    refine ⟨u, us, by rw [serialize, if_pos h.1, hu], ?_, ?_⟩
    · by_contra hspace
      have hstops : Stops ([u] ++ unit ']' :: []) :=
        stops_append (by simpa [IsSpaces] using hspace) (by decide)
      simp [Stops, hnumeral] at hstops
    · rintro rfl
      exact absurd hnumeral (by decide)
  | .str s, _ => exact ⟨unit '"', _, by rw [serialize, quote], by decide, by decide⟩
  | .arr [], _ => exact ⟨unit '[', text "]", by rw [serialize]; decide, by decide, by decide⟩
  | .arr (item :: items), _ => exact ⟨unit '[', _, by rw [serialize], by decide, by decide⟩
  | .obj [], _ => exact ⟨unit '{', text "\x7d", by rw [serialize]; decide, by decide, by decide⟩
  | .obj ((key, value) :: fields), _ =>
    exact ⟨unit '{', _, by rw [serialize], by decide, by decide⟩

/-- The texts of items with what separates them. -/
def itemsText (numbers : NumberText ν) (gap indent : JsString) : List (JsValue ν) → JsString
  | [] => []
  | item :: items => serialize numbers gap indent item ++ serializeItems numbers gap indent items

/-- The texts of fields with what separates them. -/
def fieldsText (numbers : NumberText ν) (gap indent : JsString) :
    List (JsString × JsValue ν) → JsString
  | [] => []
  | (key, value) :: fields =>
    quote key ++ (unit ':' :: ((if gap = [] then [] else [unit ' ']) ++
      (serialize numbers gap indent value ++ serializeFields numbers gap indent fields)))

/-- The text of an array. -/
theorem serialize_arr (numbers : NumberText ν) (gap indent : JsString) (item : JsValue ν)
    (items : List (JsValue ν))
    (rest : JsString) :
    serialize numbers gap indent (.arr (item :: items)) ++ rest =
      unit '[' :: (lineBreak gap (indent ++ gap) ++
        (itemsText numbers gap (indent ++ gap) (item :: items) ++
          (lineBreak gap indent ++ unit ']' :: rest))) := by
  simp [serialize, itemsText]

/-- The text of an object. -/
theorem serialize_obj (numbers : NumberText ν) (gap indent : JsString) (f : JsString × JsValue ν)
    (fields : List (JsString × JsValue ν)) (rest : JsString) :
    serialize numbers gap indent (.obj (f :: fields)) ++ rest =
      unit '{' :: (lineBreak gap (indent ++ gap) ++
        (fieldsText numbers gap (indent ++ gap) (f :: fields) ++
          (lineBreak gap indent ++ unit '}' :: rest))) := by
  obtain ⟨key, value⟩ := f
  simp [serialize, fieldsText]

/-- The text of further items. -/
theorem serializeItems_cons (indent : JsString) (item : JsValue ν) (items : List (JsValue ν)) :
    serializeItems numbers gap indent (item :: items) =
      unit ',' :: (lineBreak gap indent ++ itemsText numbers gap indent (item :: items)) := by
  simp [serializeItems, itemsText]

/-- The text of further fields. -/
theorem serializeFields_cons (indent : JsString) (f : JsString × JsValue ν)
    (fields : List (JsString × JsValue ν)) :
    serializeFields numbers gap indent (f :: fields) =
      unit ',' :: (lineBreak gap indent ++ fieldsText numbers gap indent (f :: fields)) := by
  obtain ⟨key, value⟩ := f
  simp [serializeFields, fieldsText]

/-- A string is read, after white space. -/
theorem readValue_quote (fuel : ℕ) (s rest : JsString) :
    readValue numbers (fuel + 1) (quote s ++ rest) = some (.str s, rest) := by
  have hbrace : unit '"' ≠ unit '{' := by decide
  have hbracket : unit '"' ≠ unit '[' := by decide
  have hread := readString_quoteUnits s rest
  simp only [quote, List.cons_append, List.append_assoc, List.nil_append, readValue, hbrace,
    hbracket, if_false, if_true, hread, Option.map_some]

/-- A number is read. -/
theorem readValue_num {n : ν} {indent rest : JsString} (h : Exact numbers (.num n))
    (hrest : Stops rest) (fuel : ℕ) :
    readValue numbers (fuel + 1) (serialize numbers gap indent (.num n) ++ rest) =
      some (.num n, rest) := by
  rw [Exact] at h
  obtain ⟨hfinite, hnumeral, hvalue⟩ := h
  have hread := readNumber_append numbers hnumeral hrest
  obtain ⟨hne, hall⟩ := units_of_isNumeral hnumeral
  obtain ⟨u, us, hu⟩ := List.exists_cons_of_ne_nil hne
  have hunit : isNumeralUnit u = true := hall u (by simp [hu])
  have hother : ∀ v : UInt16, isNumeralUnit v = false → u ≠ v := by
    rintro v hv rfl
    exact absurd (hunit.symm.trans hv) (by decide)
  rw [hvalue, hu, List.cons_append] at hread
  rw [serialize, if_pos hfinite, hu, List.cons_append, readValue, if_neg (hother _ (by decide)),
    if_neg (hother _ (by decide)), if_neg (hother _ (by decide)), if_neg (hother _ (by decide)),
    if_neg (hother _ (by decide)), if_neg (hother _ (by decide)), hread]

/-- A word is read. -/
theorem readWord_append (word : String) (value : JsValue ν) (rest : JsString) :
    readWord word value (text word ++ rest) = some (value, rest) := by
  unfold readWord
  rw [if_pos (List.prefix_append _ _), List.drop_left]

/-- A comma is no white space. -/
theorem skipSpace_comma (us : JsString) : skipSpace (unit ',' :: us) = unit ',' :: us :=
  skipSpace_self us (by decide)

/-- The text of items starts with a unit that is no white space and does not end the array. -/
theorem itemsText_cons (gap indent : JsString) {item : JsValue ν} (items : List (JsValue ν))
    (h : Exact numbers item) (rest : JsString) :
    ∃ u us, itemsText numbers gap indent (item :: items) ++ rest = u :: us ∧
      isJsonSpace u = false ∧ u ≠ unit ']' := by
  obtain ⟨u, us, hu, hspace, hne⟩ := serialize_cons gap indent h
  exact ⟨u, _, by rw [itemsText, hu, List.cons_append, List.cons_append], hspace, hne⟩

/-- The text of fields starts with a quotation mark. -/
theorem fieldsText_cons (gap indent : JsString) (f : JsString × JsValue ν)
    (fields : List (JsString × JsValue ν)) (rest : JsString) :
    ∃ us, fieldsText numbers gap indent (f :: fields) ++ rest = unit '"' :: us := by
  obtain ⟨key, value⟩ := f
  exact ⟨_, by rw [fieldsText, quote, List.cons_append, List.cons_append]⟩

/-- The end of an array or a comma stops a number. -/
theorem stops_serializeItems {indent back rest : JsString} {items : List (JsValue ν)}
    (hback : IsSpaces back) :
    Stops (serializeItems numbers gap indent items ++ (back ++ unit ']' :: rest)) := by
  cases items with
  | nil =>
    rw [serializeItems, List.nil_append]
    exact stops_append hback (by decide)
  | cons item items =>
    rw [serializeItems_cons, List.cons_append]
    exact stops_cons _ (by decide)

/-- The end of an object or a comma stops a number. -/
theorem stops_serializeFields {indent back rest : JsString} {fields : List (JsString × JsValue ν)}
    (hback : IsSpaces back) :
    Stops (serializeFields numbers gap indent fields ++ (back ++ unit '}' :: rest)) := by
  cases fields with
  | nil =>
    rw [serializeFields, List.nil_append]
    exact stops_append hback (by decide)
  | cons f fields =>
    rw [serializeFields_cons, List.cons_append]
    exact stops_cons _ (by decide)

/-- A space after the colon, if there is one, is white space. -/
theorem isSpaces_colon : IsSpaces (if gap = [] then [] else [unit ' ']) := by
  split_ifs
  · exact fun u hu => absurd hu (by simp)
  · intro u hu
    rw [List.mem_singleton.mp hu]
    decide

mutual

/-- A value is read from the front of a text that starts with what `JSON.stringify` writes for it.
-/
theorem readValue_serialize (hgap : IsSpaces gap) {indent : JsString} (hindent : IsSpaces indent) :
    ∀ (value : JsValue ν), Exact numbers value → ∀ {fuel : ℕ} {rest : JsString},
      (serialize numbers gap indent value).length ≤ fuel → Stops rest →
        readValue numbers fuel (serialize numbers gap indent value ++ rest) = some (value, rest)
  -- No text is empty, so the bound cannot be zero.
  | value, hexact, 0, rest, hfuel, _ => by
    obtain ⟨u, us, hu, -⟩ := serialize_cons gap indent hexact
    rw [hu, List.length_cons] at hfuel
    omega
  | .null, _, fuel + 1, rest, _, _ => by
    rw [serialize]
    exact readWord_append "null" .null rest
  | .bool true, _, fuel + 1, rest, _, _ => by
    rw [serialize]
    exact readWord_append "true" (.bool true) rest
  | .bool false, _, fuel + 1, rest, _, _ => by
    rw [serialize]
    exact readWord_append "false" (.bool false) rest
  | .num n, hexact, fuel + 1, rest, _, hrest => readValue_num hexact hrest fuel
  | .str s, _, fuel + 1, rest, _, _ => by
    rw [serialize]
    exact readValue_quote fuel s rest
  | .arr [], _, fuel + 1, rest, _, _ => by
    have hskip : skipSpace (unit ']' :: rest) = unit ']' :: rest := skipSpace_self rest (by decide)
    have hne : unit '[' ≠ unit '{' := by decide
    rw [serialize, show text "[]" = [unit '[', unit ']'] from rfl, List.cons_append,
      List.singleton_append, readValue, if_neg hne, if_pos rfl, hskip]
    simp
  -- After the bracket and its line break, the items are read with one step less.
  | .arr (item :: items), hexact, fuel + 1, rest, hfuel, _ => by
    rw [Exact] at hexact
    have hinner : IsSpaces (indent ++ gap) := hindent.append hgap
    have hitem : Exact numbers item := by
      rw [ItemsExact] at hexact
      exact hexact.1
    obtain ⟨u, us, hu, hspace, hend⟩ := itemsText_cons gap (indent ++ gap) items hitem
      (lineBreak gap indent ++ unit ']' :: rest)
    have hlength := congrArg List.length
      (serialize_arr numbers gap indent item items [])
    rw [List.append_nil, List.length_cons, List.length_append, List.length_append,
      List.length_append, List.length_singleton] at hlength
    have hread : readItems numbers fuel [] ([] ++ (itemsText numbers gap (indent ++ gap)
        (item :: items) ++ (lineBreak gap indent ++ unit ']' :: rest))) =
          some (.arr ([] ++ item :: items), rest) :=
      readItems_serialize hgap hinner (item :: items) (by simp) hexact
        (fun _ hu => absurd hu (by simp)) (isSpaces_lineBreak gap hindent) (by omega)
    have hne : unit '[' ≠ unit '{' := by decide
    have hskip : skipSpace (lineBreak gap (indent ++ gap) ++ u :: us) = u :: us :=
      skipSpace_append (isSpaces_lineBreak gap hinner) hspace
    rw [List.nil_append, List.nil_append, hu] at hread
    rw [serialize_arr, readValue, if_neg hne, if_pos rfl, hu, hskip]
    simpa [hend] using hread
  | .obj [], _, fuel + 1, rest, _, _ => by
    have hskip : skipSpace (unit '}' :: rest) = unit '}' :: rest := skipSpace_self rest (by decide)
    rw [serialize, show text "{}" = [unit '{', unit '}'] from rfl, List.cons_append,
      List.singleton_append, readValue, if_pos rfl, hskip]
    simp
  -- A property starts with a quotation mark, so an object that is not empty is not taken for one.
  | .obj (f :: fields), hexact, fuel + 1, rest, hfuel, _ => by
    rw [Exact] at hexact
    have hinner : IsSpaces (indent ++ gap) := hindent.append hgap
    obtain ⟨us, hu⟩ := fieldsText_cons gap (indent ++ gap) f fields
      (lineBreak gap indent ++ unit '}' :: rest)
    have hlength := congrArg List.length
      (serialize_obj numbers gap indent f fields [])
    rw [List.append_nil, List.length_cons, List.length_append, List.length_append,
      List.length_append, List.length_singleton] at hlength
    have hread : readFields numbers fuel [] ([] ++ (fieldsText numbers gap (indent ++ gap)
        (f :: fields) ++ (lineBreak gap indent ++ unit '}' :: rest))) =
          some (.obj ((f :: fields).foldl (fun fs f => setProperty fs f.1 f.2) []), rest) :=
      readFields_serialize hgap hinner (f :: fields) (by simp) hexact.2
        (fun _ hu => absurd hu (by simp)) (isSpaces_lineBreak gap hindent) (by omega)
    have hend : unit '"' ≠ unit '}' := by decide
    have hskip : skipSpace (lineBreak gap (indent ++ gap) ++ unit '"' :: us) = unit '"' :: us :=
      skipSpace_append (isSpaces_lineBreak gap hinner) (by decide)
    rw [List.nil_append, hexact.1, hu] at hread
    rw [serialize_obj, readValue, if_pos rfl, hu, hskip]
    simpa [hend] using hread

/-- The items of an array are read one after the other. -/
theorem readItems_serialize (hgap : IsSpaces gap) {indent : JsString} (hindent : IsSpaces indent) :
    ∀ (items : List (JsValue ν)), items ≠ [] → ItemsExact numbers items →
      ∀ {fuel : ℕ} {acc : List (JsValue ν)} {front back rest : JsString}, IsSpaces front →
        IsSpaces back → (itemsText numbers gap indent items).length + 1 ≤ fuel →
          readItems numbers fuel acc (front ++ (itemsText numbers gap indent items ++
            (back ++ unit ']' :: rest))) = some (.arr (acc ++ items), rest)
  | [], hne, _, _, _, _, _, _, _, _, _ => absurd rfl hne
  | _ :: _, _, _, 0, _, _, _, _, _, _, hfuel => absurd hfuel (by omega)
  | item :: items, _, hexact, fuel + 1, acc, front, back, rest, hfront, hback, hfuel => by
    rw [ItemsExact] at hexact
    rw [itemsText, List.length_append] at hfuel
    obtain ⟨u, us, hu, hspace, -⟩ := serialize_cons gap indent hexact.1
    have hvalue : readValue numbers fuel (serialize numbers gap indent item ++
        (serializeItems numbers gap indent items ++ (back ++ unit ']' :: rest))) =
          some (item, serializeItems numbers gap indent items ++ (back ++ unit ']' :: rest)) :=
      readValue_serialize hgap hindent item hexact.1 (by omega) (stops_serializeItems hback)
    have hskip : skipSpace (front ++ (itemsText numbers gap indent (item :: items) ++
        (back ++ unit ']' :: rest))) = serialize numbers gap indent item ++
          (serializeItems numbers gap indent items ++ (back ++ unit ']' :: rest)) := by
      rw [itemsText, List.append_assoc, hu, List.cons_append, skipSpace_append hfront hspace]
    rw [readItems, hskip, hvalue]
    match items, hexact, hfuel with
    -- The last item is followed by the bracket, any other one by a comma.
    | [], _, _ =>
      have hback : skipSpace (back ++ unit ']' :: rest) = unit ']' :: rest :=
        skipSpace_append hback (by decide)
      simp [serializeItems, hback]
    | next :: items, hexact, hfuel =>
      have hne : unit ',' ≠ unit ']' := by decide
      rw [serializeItems_cons, List.length_cons, List.length_append] at hfuel
      have ih : readItems numbers fuel (acc ++ [item]) (lineBreak gap indent ++
          (itemsText numbers gap indent (next :: items) ++ (back ++ unit ']' :: rest))) =
            some (.arr (acc ++ [item] ++ next :: items), rest) :=
        readItems_serialize hgap hindent (next :: items) (by simp) hexact.2
          (isSpaces_lineBreak gap hindent) hback (by omega)
      rw [List.append_assoc acc, List.singleton_append] at ih
      rw [serializeItems_cons, List.cons_append, List.append_assoc]
      simp only [Option.bind_eq_bind, Option.bind_some, skipSpace_comma, hne, if_false, if_true, ih]

/-- The fields of an object are read one after the other. -/
theorem readFields_serialize (hgap : IsSpaces gap) {indent : JsString} (hindent : IsSpaces indent) :
    ∀ (fields : List (JsString × JsValue ν)), fields ≠ [] → FieldsExact numbers fields →
      ∀ {fuel : ℕ} {acc : List (JsString × JsValue ν)} {front back rest : JsString},
        IsSpaces front → IsSpaces back →
          (fieldsText numbers gap indent fields).length + 1 ≤ fuel →
            readFields numbers fuel acc (front ++ (fieldsText numbers gap indent fields ++
              (back ++ unit '}' :: rest))) =
                some (.obj (fields.foldl (fun fs f => setProperty fs f.1 f.2) acc), rest)
  | [], hne, _, _, _, _, _, _, _, _, _ => absurd rfl hne
  | _ :: _, _, _, 0, _, _, _, _, _, _, hfuel => absurd hfuel (by omega)
  | (key, value) :: fields, _, hexact, fuel + 1, acc, front, back, rest, hfront, hback, hfuel => by
    rw [FieldsExact] at hexact
    rw [fieldsText, List.length_append, List.length_cons, List.length_append,
      List.length_append] at hfuel
    obtain ⟨u, us, hu, hspace, -⟩ := serialize_cons gap indent hexact.1
    have hkey : ∀ tail, skipSpace (front ++ (quote key ++ tail)) =
        unit '"' :: (quoteUnits key ++ unit '"' :: tail) := by
      intro tail
      rw [quote, List.cons_append, List.append_assoc, skipSpace_append hfront (by decide)]
      rfl
    have hcolon : ∀ tail : JsString, skipSpace (unit ':' :: tail) = unit ':' :: tail := fun tail =>
      skipSpace_self tail (by decide)
    have hspaces : ∀ tail, skipSpace ((if gap = [] then [] else [unit ' ']) ++
        (serialize numbers gap indent value ++ tail)) =
          serialize numbers gap indent value ++ tail := by
      intro tail
      rw [hu, List.cons_append, skipSpace_append isSpaces_colon hspace]
    have hvalue : readValue numbers fuel (serialize numbers gap indent value ++
        (serializeFields numbers gap indent fields ++ (back ++ unit '}' :: rest))) =
          some (value, serializeFields numbers gap indent fields ++ (back ++ unit '}' :: rest)) :=
      readValue_serialize hgap hindent value hexact.1 (by omega) (stops_serializeFields hback)
    rw [readFields, fieldsText]
    simp only [List.append_assoc, List.cons_append, hkey, if_true, readString_quoteUnits,
      Option.bind_eq_bind, Option.bind_some, hcolon, hspaces, hvalue]
    match fields, hexact, hfuel with
    | [], _, _ =>
      have hback : skipSpace (back ++ unit '}' :: rest) = unit '}' :: rest :=
        skipSpace_append hback (by decide)
      simp [serializeFields, hback]
    | next :: fields, hexact, hfuel =>
      have hne : unit ',' ≠ unit '}' := by decide
      rw [serializeFields_cons, List.length_cons, List.length_append] at hfuel
      have ih : readFields numbers fuel (setProperty acc key value) (lineBreak gap indent ++
          (fieldsText numbers gap indent (next :: fields) ++ (back ++ unit '}' :: rest))) =
            some (.obj ((next :: fields).foldl (fun fs f => setProperty fs f.1 f.2)
              (setProperty acc key value)), rest) :=
        readFields_serialize hgap hindent (next :: fields) (by simp) hexact.2
          (isSpaces_lineBreak gap hindent) hback (by omega)
      rw [serializeFields_cons, List.cons_append, List.append_assoc]
      simp only [skipSpace_comma, hne, if_false, if_true, ih, List.foldl_cons]

end

/-! ## Line breaks -/

/-- The escape of a code unit has no line break. -/
theorem newline_notMem_quoteUnit (u : UInt16) : unit '\n' ∉ quoteUnit u := by
  have hhex : ∀ d < 16, hexUnit d ≠ unit '\n' := by decide
  have hlt := u.toNat_lt
  unfold quoteUnit
  split_ifs with hb ht hn
  · decide
  · decide
  · decide
  · decide
  · decide
  · decide
  · decide
  · have ha := hhex (u.toNat / 4096) (by omega)
    have hb := hhex (u.toNat / 256 % 16) (by omega)
    have hc := hhex (u.toNat / 16 % 16) (by omega)
    have hd := hhex (u.toNat % 16) (by omega)
    have hslash : unit '\n' ≠ unit '\\' := by decide
    have hu : unit '\n' ≠ unit 'u' := by decide
    simp [unicodeEscape, ha.symm, hb.symm, hc.symm, hd.symm, hslash, hu]
  · intro h
    exact hn (List.mem_singleton.mp h).symm

/-- A quoted string has no line break. -/
theorem newline_notMem_quote (s : JsString) : unit '\n' ∉ quote s := by
  have hquote : unit '\n' ≠ unit '"' := by decide
  have hunits : unit '\n' ∉ quoteUnits s := by
    induction s using quoteUnits.induct with
    | case1 => simp [quoteUnits]
    | case2 u => exact newline_notMem_quoteUnit u
    | case3 u v us hpair ih =>
      have hne : ∀ w : UInt16, 0 < w.toNat / 0x400 → unit '\n' ≠ w := by
        rintro w hw rfl
        exact absurd hw (by decide)
      rw [quoteUnits, if_pos hpair]
      simp [ih, hne u (by omega), hne v (by omega)]
    | case4 u v us hpair ih =>
      rw [quoteUnits, if_neg hpair, List.mem_append, not_or]
      exact ⟨newline_notMem_quoteUnit u, ih⟩
  simp [quote, hquote, hunits]

mutual

/-- Without a gap, the text of a value has no line break. -/
theorem newline_notMem_serialize (indent : JsString) : ∀ (value : JsValue ν), Exact numbers value →
    unit '\n' ∉ serialize numbers [] indent value
  | .null, _ => by rw [serialize]; decide
  | .bool true, _ => by rw [serialize]; decide
  | .bool false, _ => by rw [serialize]; decide
  | .num n, h => by
    rw [Exact] at h
    rw [serialize, if_pos h.1]
    intro hmem
    exact absurd ((units_of_isNumeral h.2.1).2 _ hmem) (by decide)
  | .str s, _ => by
    rw [serialize]
    exact newline_notMem_quote s
  | .arr [], _ => by rw [serialize]; decide
  | .arr (item :: items), h => by
    rw [Exact, ItemsExact] at h
    have hitem := newline_notMem_serialize (indent ++ []) item h.1
    have hitems := newline_notMem_serializeItems (indent ++ []) items h.2
    have hopen : unit '\n' ≠ unit '[' := by decide
    have hclose : unit '\n' ≠ unit ']' := by decide
    rw [List.append_nil] at hitem hitems
    simp [serialize, lineBreak, hitem, hitems, hopen, hclose]
  | .obj [], _ => by rw [serialize]; decide
  | .obj ((key, value) :: fields), h => by
    rw [Exact, FieldsExact] at h
    have hvalue := newline_notMem_serialize (indent ++ []) value h.2.1
    have hfields := newline_notMem_serializeFields (indent ++ []) fields h.2.2
    have hopen : unit '\n' ≠ unit '{' := by decide
    have hclose : unit '\n' ≠ unit '}' := by decide
    have hcolon : unit '\n' ≠ unit ':' := by decide
    rw [List.append_nil] at hvalue hfields
    simp [serialize, lineBreak, newline_notMem_quote, hvalue, hfields, hopen, hclose, hcolon]

/-- Without a gap, the text of further items has no line break. -/
theorem newline_notMem_serializeItems (indent : JsString) : ∀ (items : List (JsValue ν)),
    ItemsExact numbers items → unit '\n' ∉ serializeItems numbers [] indent items
  | [], _ => by simp [serializeItems]
  | item :: items, h => by
    rw [ItemsExact] at h
    have hitem := newline_notMem_serialize indent item h.1
    have hitems := newline_notMem_serializeItems indent items h.2
    have hcomma : unit '\n' ≠ unit ',' := by decide
    simp [serializeItems, lineBreak, hitem, hitems, hcomma]

/-- Without a gap, the text of further fields has no line break. -/
theorem newline_notMem_serializeFields (indent : JsString) :
    ∀ (fields : List (JsString × JsValue ν)), FieldsExact numbers fields →
      unit '\n' ∉ serializeFields numbers [] indent fields
  | [], _ => by simp [serializeFields]
  | (key, value) :: fields, h => by
    rw [FieldsExact] at h
    have hvalue := newline_notMem_serialize indent value h.1
    have hfields := newline_notMem_serializeFields indent fields h.2
    have hcomma : unit '\n' ≠ unit ',' := by decide
    have hcolon : unit '\n' ≠ unit ':' := by decide
    simp [serializeFields, lineBreak, newline_notMem_quote, hvalue, hfields, hcomma, hcolon]

end

/-! ## Whole texts -/

/-- `JSON.parse` reads what `JSON.stringify` writes. -/
theorem parse_serialize (hgap : IsSpaces gap) {value : JsValue ν} (h : Exact numbers value) :
    parse numbers (serialize numbers gap [] value) = some value := by
  obtain ⟨u, us, hu, hspace, -⟩ := serialize_cons gap [] h
  have hread : readValue numbers ((serialize numbers gap [] value).length + 1)
      (serialize numbers gap [] value ++ []) = some (value, []) :=
    readValue_serialize hgap (fun _ hu => absurd hu (by simp)) value h (by omega) (by simp [Stops])
  rw [List.append_nil] at hread
  have hskip : skipSpace (serialize numbers gap [] value) = serialize numbers gap [] value := by
    rw [hu, skipSpace_self us hspace]
  unfold parse
  rw [hskip, hread]
  simp [skipSpace]

/-- A text with something else after a value is a syntax error. -/
theorem parse_eq_none (hgap : IsSpaces gap) {value : JsValue ν} (h : Exact numbers value)
    {rest : JsString} (hstops : Stops rest) (hrest : skipSpace rest ≠ []) :
    parse numbers (serialize numbers gap [] value ++ rest) = none := by
  obtain ⟨u, us, hu, hspace, -⟩ := serialize_cons gap [] h
  have hread : readValue numbers ((serialize numbers gap [] value ++ rest).length + 1)
      (serialize numbers gap [] value ++ rest) = some (value, rest) :=
    readValue_serialize hgap (fun _ hu => absurd hu (by simp)) value h
      (by rw [List.length_append]; omega) hstops
  have hskip : skipSpace (serialize numbers gap [] value ++ rest) =
      serialize numbers gap [] value ++ rest := by
    rw [hu, List.cons_append, skipSpace_self _ hspace]
  unfold parse
  rw [hskip, hread]
  simp [hrest]

end CdkSystem.Js
