import CdkSystem.Lib.Decimal
import CdkSystem.Lib.Trimming

/-!
# JavaScript texts and values

What the pages under `web/src` use of JavaScript's strings, and the values that `JSON.parse` makes.
A string is the list of its 16-bit code units, with or without a meaning in UTF-16.

What counts as white space for `trim` is listed by the standard of the language (`isWhitespace`); it
differs in a few characters from what Go's `strings.TrimSpace` removes. Numerals are padded with
zeros, and different numbers have different numerals at every width.
-/

namespace CdkSystem

/-- A JavaScript string: its code units of sixteen bits, which need not be well formed. -/
abbrev JsString := List UInt16

instance : LawfulBEq JsString := inferInstance

namespace Js

/-- The code unit of a character of the Basic Multilingual Plane. -/
def unit (c : Char) : UInt16 := UInt16.ofNat c.toNat

/-- The code units of a character in UTF-16. -/
def units (c : Char) : JsString :=
  if c.toNat < 0x10000 then [unit c]
  else
    [UInt16.ofNat (0xD800 + (c.toNat - 0x10000) / 0x400),
      UInt16.ofNat (0xDC00 + (c.toNat - 0x10000) % 0x400)]

/-- A string literal of the source, in code units. -/
def text (s : String) : JsString := s.toList.flatMap units

/-- Whether a code unit is `\s` in a regular expression, and trimmed by `trim`. -/
def isWhitespace (u : UInt16) : Bool :=
  u.toNat ∈ [0x09, 0x0A, 0x0B, 0x0C, 0x0D, 0x20, 0xA0, 0x1680, 0x2028, 0x2029, 0x202F, 0x205F,
    0x3000, 0xFEFF] || (0x2000 ≤ u.toNat && u.toNat ≤ 0x200A)

/-- `String.prototype.trim`: the white space and the line ends at both ends are cut off. -/
def trim (s : JsString) : JsString := Trimming.trim isWhitespace s

/-- The code units of decimal digits, in their order. -/
def ofDigits (ds : List ℕ) : JsString := ds.map fun d => UInt16.ofNat (48 + d)

/-- `String(n)` of a natural number: its decimal digits without leading zeros. -/
def decimal (n : ℕ) : JsString := ofDigits (Decimal.digits n)

/-- `String(n).padStart(width, "0")`: the digits with zeros before them, up to a width. -/
def padded (width n : ℕ) : JsString := ofDigits (Decimal.padded width n)

/-- The number of bytes of a string in UTF-8, a lone surrogate counting as U+FFFD. -/
def blobSize : JsString → ℕ
  | [] => 0
  | u :: us =>
    if u.toNat < 0x80 then 1 + blobSize us
    else if u.toNat < 0x800 then 2 + blobSize us
    else
      match us with
      | v :: vs =>
        if u.toNat / 0x400 = 0x36 ∧ v.toNat / 0x400 = 0x37 then 4 + blobSize vs
        else 3 + blobSize (v :: vs)
      | [] => 3

end Js

end CdkSystem
