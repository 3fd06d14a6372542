import Mathlib.Tactic

/-!
# Go strings of arbitrary bytes

A Go string that comes from the network is a list of bytes. `[]rune(s)` decodes it character by
character, a byte that starts no character becoming U+FFFD, and `string(runes)` encodes characters
again. PostgreSQL takes a list of bytes as a text only if it is valid UTF-8 without NUL.
-/

namespace CdkSystem

/-- The character at the front of the bytes, if they start with one in valid UTF-8. -/
def firstRune? (bytes : List UInt8) : Option Char := bytes.toByteArray.utf8DecodeChar? 0

/-- `[]rune(s)` with a bound on the number of characters. -/
def decodeRunes : ℕ → List UInt8 → List Char
  | 0, _ => []
  | _ + 1, [] => []
  | fuel + 1, b :: bs =>
    match firstRune? (b :: bs) with
    | some c => c :: decodeRunes fuel ((b :: bs).drop c.utf8Size)
    | none => '\uFFFD' :: decodeRunes fuel bs

/-- `[]rune(s)`: there are at most as many characters as bytes. -/
def runes (bytes : List UInt8) : List Char := decodeRunes bytes.length bytes

/-- `string(runes)`: the encodings of the characters, one after the other. -/
def encodeRunes (cs : List Char) : List UInt8 := cs.flatMap String.utf8EncodeChar

/-- The text that PostgreSQL stores for the bytes, if it accepts them. -/
def textOfBytes? (bytes : List UInt8) : Option String :=
  if encodeRunes (runes bytes) = bytes ∧ '\x00' ∉ runes bytes then
    some (String.ofList (runes bytes))
  else none

/-- The bytes of a text, which are the encodings of its characters. -/
def bytesOfText (s : String) : List UInt8 := encodeRunes s.toList

/-- Encoding is character by character, from the first one on. -/
@[simp]
theorem encodeRunes_cons (c : Char) (cs : List Char) :
    encodeRunes (c :: cs) = String.utf8EncodeChar c ++ encodeRunes cs := rfl

/-- Encoding two lists of characters one after the other. -/
theorem encodeRunes_append (cs ds : List Char) :
    encodeRunes (cs ++ ds) = encodeRunes cs ++ encodeRunes ds := List.flatMap_append

/-- An encoded character at the front is decoded. -/
theorem firstRune?_encode (c : Char) (bytes : List UInt8) :
    firstRune? (String.utf8EncodeChar c ++ bytes) = some c := by
  unfold firstRune?
  rw [List.toByteArray_append]
  exact ByteArray.utf8DecodeChar?_utf8EncodeChar_append

/-- Decoding gives back the characters that were encoded, and goes on with what follows them. -/
theorem decodeRunes_encode (cs : List Char) {bytes : List UInt8} {fuel : ℕ} :
    decodeRunes (cs.length + fuel) (encodeRunes cs ++ bytes) = cs ++ decodeRunes fuel bytes := by
  induction cs with
  | nil => simp [encodeRunes]
  | cons c cs ih =>
    have hl := String.length_utf8EncodeChar c
    have hpos := c.utf8Size_pos
    obtain ⟨b, bs, he⟩ : ∃ b bs, String.utf8EncodeChar c = b :: bs := by
      cases h : String.utf8EncodeChar c with
      | nil => simp [h] at hl; omega
      | cons b bs => exact ⟨b, bs, rfl⟩
    have hfirst := firstRune?_encode c (encodeRunes cs ++ bytes)
    have hdrop : (String.utf8EncodeChar c ++ (encodeRunes cs ++ bytes)).drop c.utf8Size =
        encodeRunes cs ++ bytes := by
      rw [← hl, List.drop_left]
    rw [encodeRunes_cons, List.append_assoc, List.length_cons, Nat.add_right_comm]
    rw [he, List.cons_append] at hfirst hdrop ⊢
    simp only [decodeRunes, hfirst, hdrop, ih, List.cons_append]

/-- There is nothing to decode in no bytes. -/
@[simp]
theorem decodeRunes_nil (fuel : ℕ) : decodeRunes fuel [] = [] := by
  cases fuel <;> rfl

/-- An encoded list of characters has at least as many bytes as characters. -/
theorem length_le_length_encodeRunes (cs : List Char) : cs.length ≤ (encodeRunes cs).length := by
  induction cs with
  | nil => simp
  | cons c cs ih =>
    have := c.utf8Size_pos
    rw [encodeRunes_cons, List.length_append, String.length_utf8EncodeChar, List.length_cons]
    omega

/-- The characters of an encoded list of characters. -/
@[simp]
theorem runes_encodeRunes (cs : List Char) : runes (encodeRunes cs) = cs := by
  obtain ⟨n, hn⟩ := Nat.exists_eq_add_of_le (length_le_length_encodeRunes cs)
  have h : decodeRunes (cs.length + n) (encodeRunes cs ++ []) = cs ++ decodeRunes n [] :=
    decodeRunes_encode cs
  rw [List.append_nil, decodeRunes_nil, List.append_nil, ← hn] at h
  exact h

end CdkSystem
