import Mathlib.Data.List.DropRight
import Mathlib.Tactic

/-!
# Texts

The functions of `strings` and of `internal/redeem` that turn the user's input into the texts that
are stored and compared. A Go string that was decoded from JSON is valid UTF-8, so it is a Lean
string; `len` counts its bytes and `utf8.RuneCountInString` its characters.

Normalizing a code keeps the letters and digits of ASCII and changes the letters to upper case, so
the result has no other character, and normalizing it again changes nothing (`normalizeCode_eq`).
-/

namespace CdkSystem

/-- `unicode.IsSpace`: the characters with the property White_Space. -/
def isSpace (c : Char) : Bool :=
  c.toNat ∈ [0x09, 0x0A, 0x0B, 0x0C, 0x0D, 0x20, 0x85, 0xA0, 0x1680, 0x2028, 0x2029, 0x202F, 0x205F,
    0x3000] || (0x2000 ≤ c.toNat && c.toNat ≤ 0x200A)

/-- The text without the leading and trailing characters that satisfy `p`: `strings.TrimFunc`. -/
def trimFunc (p : Char → Bool) (s : String) : String :=
  String.ofList (((s.toList.dropWhile p).reverse.dropWhile p).reverse)

/-- The text without leading and trailing space: `strings.TrimSpace`. -/
def trimSpace (s : String) : String := trimFunc isSpace s

/-- `unicode.ToUpper` on the characters whose upper case is in ASCII: the ASCII letters, the dotless
i and the long s. -/
def upperRune (c : Char) : Char :=
  if c = 'ı' then 'I' else if c = 'ſ' then 'S' else c.toUpper

/-- `strings.ToUpper`, as far as the upper case is in ASCII. -/
def toUpper (s : String) : String := String.ofList (s.toList.map upperRune)

/-- The length in bytes, which is what `len` of Go counts. -/
def byteLength (s : String) : ℕ := s.utf8ByteSize

/-- `NormalizeCode` strips all characters that are not ASCII letters or digits and changes the
letters to upper case. -/
def normalizeCode (raw : String) : String :=
  toUpper (String.ofList (raw.toList.filter Char.isAlphanum))

/-- The characters in groups of four, the last one of at most four. -/
def groups : ℕ → List Char → List (List Char)
  | 0, _ => []
  | _ + 1, [] => []
  | fuel + 1, c :: cs => (c :: cs).take 4 :: groups fuel ((c :: cs).drop 4)

/-- `formatGroups` writes a code in groups of four characters with dashes between them. -/
def formatGroups (s : String) : String :=
  if byteLength s ≤ 4 then s
  else String.intercalate "-" ((groups s.length s.toList).map String.ofList)

/-- `DisplayCode` separates the batch's prefix from the rest of a code and groups the rest. -/
def displayCode (code codePrefix : String) : String :=
  let upper := toUpper codePrefix
  if upper ≠ "" ∧ upper.toList <+: code.toList then
    upper ++ "-" ++ formatGroups (String.ofList (code.toList.drop upper.length))
  else formatGroups code

/-- Whether PostgreSQL stores the text: it has no character NUL. -/
def storable (s : String) : Bool := s.toList.all (· ≠ '\x00')

/-- A text of upper-case ASCII letters and digits: the pattern of codes and prefixes. -/
def upperAlphanumeric (s : String) : Bool := s.toList.all fun c => c.isUpper || c.isDigit

/-- A trimmed text stays as it is when no more is trimmed. -/
theorem trimFunc_trimFunc {p q : Char → Bool} (h : ∀ c, q c = true → p c = true) (s : String) :
    trimFunc q (trimFunc p s) = trimFunc p s := by
  change String.ofList (((String.ofList ((s.toList.dropWhile p).rdropWhile p)).toList.dropWhile
    q).rdropWhile q) = String.ofList ((s.toList.dropWhile p).rdropWhile p)
  rw [String.toList_ofList]
  -- Neither the first nor the last character of a trimmed text is one that is trimmed.
  have hfront : ((s.toList.dropWhile p).rdropWhile p).dropWhile q =
      (s.toList.dropWhile p).rdropWhile p := by
    rw [List.dropWhile_eq_self_iff]
    intro hne hq
    have hprefix := List.rdropWhile_prefix p (s.toList.dropWhile p)
    have hlen := hprefix.length_le
    have hget := hprefix.getElem hne
    rw [hget] at hq
    exact List.dropWhile_get_zero_not p s.toList (by omega) (h _ hq)
  have hback : ((s.toList.dropWhile p).rdropWhile p).rdropWhile q =
      (s.toList.dropWhile p).rdropWhile p := by
    rw [List.rdropWhile_eq_self_iff]
    exact fun hne hq => List.rdropWhile_last_not p _ hne (h _ hq)
  rw [hfront, hback]

/-- A letter or digit is an ASCII character. -/
theorem toNat_lt_of_isAlphanum {c : Char} (h : c.isAlphanum = true) : c.toNat < 128 := by
  have hz : 'Z'.val.toNat = 90 := rfl
  have hz' : 'z'.val.toNat = 122 := rfl
  have h9 : '9'.val.toNat = 57 := rfl
  have hc : c.toNat = c.val.toNat := rfl
  delta Char.isAlphanum Char.isAlpha Char.isUpper Char.isLower Char.isDigit at h
  simp only [Bool.or_eq_true, Bool.and_eq_true, decide_eq_true_eq, UInt32.le_iff_toNat_le,
    ge_iff_le] at h
  omega

/-- The numbers of upper-case letters and digits. -/
theorem toNat_of_upper {c : Char} (h : (c.isUpper || c.isDigit) = true) :
    (48 ≤ c.toNat ∧ c.toNat ≤ 57) ∨ (65 ≤ c.toNat ∧ c.toNat ≤ 90) := by
  have hval : c.toNat = c.val.toNat := rfl
  have hA : 'A'.val.toNat = 65 := rfl
  have hZ : 'Z'.val.toNat = 90 := rfl
  have h0 : '0'.val.toNat = 48 := rfl
  have h9 : '9'.val.toNat = 57 := rfl
  delta Char.isUpper Char.isDigit at h
  simp only [Bool.or_eq_true, Bool.and_eq_true, decide_eq_true_eq, UInt32.le_iff_toNat_le,
    ge_iff_le] at h
  omega

/-- In upper case, an ASCII letter or digit is an upper-case letter or a digit. -/
theorem toUpper_ascii : ∀ n < 128, (Char.ofNat n).isAlphanum = true →
    (upperRune (Char.ofNat n)).isUpper = true ∨ (upperRune (Char.ofNat n)).isDigit = true := by
  decide

/-- The characters of a normalized code are upper-case letters and digits. -/
theorem mem_normalizeCode {raw : String} {c : Char} (h : c ∈ (normalizeCode raw).toList) :
    c.isUpper = true ∨ c.isDigit = true := by
  simp only [normalizeCode, toUpper, String.toList_ofList, List.mem_map, List.mem_filter] at h
  obtain ⟨a, ⟨-, ha⟩, rfl⟩ := h
  have := toUpper_ascii a.toNat (toNat_lt_of_isAlphanum ha)
  rw [Char.ofNat_toNat] at this
  exact this ha

/-- A normalized code does not contain the character NUL. -/
theorem nul_notMem_normalizeCode (raw : String) : '\x00' ∉ (normalizeCode raw).toList := by
  intro h
  rcases mem_normalizeCode h with h | h <;> exact absurd h (by decide)

/-- Upper-case letters and digits are ASCII letters and digits that stay as they are in upper case.
-/
theorem upperRune_upper_ascii : ∀ n < 128,
    ((Char.ofNat n).isUpper || (Char.ofNat n).isDigit) = true →
      upperRune (Char.ofNat n) = Char.ofNat n := by
  decide

/-- Upper-case letters are letters, so capitals and digits are alphanumeric. -/
theorem isAlphanum_of_upper {c : Char} (h : (c.isUpper || c.isDigit) = true) :
    c.isAlphanum = true := by
  change ((c.isUpper || c.isLower) || c.isDigit) = true
  simp only [Bool.or_eq_true] at h ⊢
  tauto

/-- Upper-case letters and digits are not changed in upper case. -/
theorem upperRune_of_upper {c : Char} (h : (c.isUpper || c.isDigit) = true) : upperRune c = c := by
  have hlt := toNat_lt_of_isAlphanum (isAlphanum_of_upper h)
  have hupper := upperRune_upper_ascii c.toNat hlt
  rw [Char.ofNat_toNat] at hupper
  exact hupper h

/-- Upper-case texts of letters and digits are not changed in upper case. -/
theorem toUpper_of_upper {s : String} (h : upperAlphanumeric s = true) : toUpper s = s := by
  have hall : ∀ c ∈ s.toList, upperRune c = c := fun c hc =>
    upperRune_of_upper (List.all_eq_true.mp h c hc)
  rw [toUpper, List.map_congr_left hall, List.map_id'', String.ofList_toList]
  exact fun _ => rfl

/-- Normalizing a text whose letters and digits are those of a code gives the code. -/
theorem normalizeCode_eq {raw code : String} (hcode : upperAlphanumeric code = true)
    (h : raw.toList.filter Char.isAlphanum = code.toList) : normalizeCode raw = code := by
  rw [normalizeCode, h, String.ofList_toList, toUpper_of_upper hcode]

/-- A code consists of letters and digits. -/
theorem filter_of_upper {cs : List Char} (h : ∀ c ∈ cs, (c.isUpper || c.isDigit) = true) :
    cs.filter Char.isAlphanum = cs :=
  List.filter_eq_self.mpr fun c hc => isAlphanum_of_upper (h c hc)

end CdkSystem
