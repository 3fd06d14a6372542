import CdkSystem.Js

/-!
# JavaScript's JSON

The values that `JSON.parse` makes, and `JSON.parse` and `JSON.stringify` themselves. An object is
the list of its properties in the order in which they are enumerated. `ν` is the type of the
numbers, whose texts are `NumberText`'s.

The reader is a recursive descent over the text with a bound on its steps, for which the length of
the text is always enough. The writer has the gap that `JSON.stringify` is given, so the same
definition writes one line or many.
-/

namespace CdkSystem

/-- A value that `JSON.parse` makes, over any type of numbers. -/
inductive JsValue (ν : Type) where
  | null
  | bool (b : Bool)
  | num (n : ν)
  | str (s : JsString)
  | arr (items : List (JsValue ν))
  | obj (fields : List (JsString × JsValue ν))

/-- How numbers are written and read: the functions of the engine that the pages call. -/
structure NumberText (ν : Type) where
  /-- `Number.isFinite`. -/
  isFinite : ν → Bool
  /-- `Number.prototype.toString`. -/
  toText : ν → JsString
  /-- The number that a JSON number denotes. -/
  ofText : JsString → ν
  /-- An integer as a number. -/
  ofInt : ℤ → ν

namespace Js

variable {ν : Type}

/-- The code units of which JSON numbers consist. -/
def isNumeralUnit (u : UInt16) : Bool :=
  (48 ≤ u.toNat && u.toNat ≤ 57) || u ∈ [unit '-', unit '+', unit '.', unit 'e', unit 'E']

/-- Whether a code unit is a decimal digit. -/
def isDigit (u : UInt16) : Bool := 48 ≤ u.toNat && u.toNat ≤ 57

/-- The text after one or more digits. -/
def digits1 (s : JsString) : Option JsString :=
  if s.head?.any isDigit then some (s.dropWhile isDigit) else none

/-- The text after the exponent of a number, if it has one. -/
def exponentPart : JsString → Option JsString
  | [] => some []
  | u :: us =>
    if u = unit 'e' ∨ u = unit 'E' then
      match us with
      | v :: vs => if v = unit '+' ∨ v = unit '-' then digits1 vs else digits1 (v :: vs)
      | [] => none
    else some (u :: us)

/-- The text after the fraction of a number, if it has one. -/
def fractionPart : JsString → Option JsString
  | [] => some []
  | u :: us => if u = unit '.' then digits1 us else some (u :: us)

/-- The text after the integer part of a number, which has no leading zeros. -/
def integerPart : JsString → Option JsString
  | [] => none
  | u :: us => if u = unit '0' then some us else digits1 (u :: us)

/-- Whether a text is a JSON number. -/
def isNumeral (s : JsString) : Bool :=
  let unsigned := match s with
    | u :: us => if u = unit '-' then us else u :: us
    | [] => []
  ((integerPart unsigned).bind fractionPart).bind exponentPart == some []

/-- Whether a text is an array index: a number below `2 ^ 32 - 1` in its canonical form. -/
def arrayIndex? (key : JsString) : Option ℕ :=
  let n := Decimal.value (key.map fun u => u.toNat - 48)
  if key.all isDigit ∧ key = decimal n ∧ n < 2 ^ 32 - 1 then some n else none

/-- Where a new property is enumerated: the array indices first, in ascending order, and then the
other keys in the order of creation. -/
def insertProperty (key : JsString) (value : JsValue ν) :
    List (JsString × JsValue ν) → List (JsString × JsValue ν)
  | [] => [(key, value)]
  | (k, v) :: fields =>
    match arrayIndex? key, arrayIndex? k with
    | some n, some m => if n < m then (key, value) :: (k, v) :: fields
      else (k, v) :: insertProperty key value fields
    | some _, none => (key, value) :: (k, v) :: fields
    | none, _ => (k, v) :: insertProperty key value fields

/-- Give a property its value: an existing one keeps its place. -/
def setProperty (fields : List (JsString × JsValue ν)) (key : JsString) (value : JsValue ν) :
    List (JsString × JsValue ν) :=
  if key ∈ fields.map Prod.fst then
    fields.map fun f => if f.1 = key then (key, value) else f
  else insertProperty key value fields

/-- Whether a code unit is white space in a JSON text. -/
def isJsonSpace (u : UInt16) : Bool := u.toNat ∈ [0x09, 0x0A, 0x0D, 0x20]

/-- A JSON text without the white space at its front. -/
def skipSpace (s : JsString) : JsString := s.dropWhile isJsonSpace

/-- The value of a hexadecimal digit, and nothing for any other code unit. -/
def hexDigit? (u : UInt16) : Option ℕ :=
  if 48 ≤ u.toNat ∧ u.toNat ≤ 57 then some (u.toNat - 48)
  else if 97 ≤ u.toNat ∧ u.toNat ≤ 102 then some (u.toNat - 87)
  else if 65 ≤ u.toNat ∧ u.toNat ≤ 70 then some (u.toNat - 55)
  else none

/-- The code unit that an escape of one character stands for. -/
def simpleEscape? (u : UInt16) : Option UInt16 :=
  if u = unit '"' ∨ u = unit '\\' ∨ u = unit '/' then some u
  else if u = unit 'b' then some 8
  else if u = unit 'f' then some 12
  else if u = unit 'n' then some 10
  else if u = unit 'r' then some 13
  else if u = unit 't' then some 9
  else none

/-- The string whose opening quotation mark was read, and what follows it. -/
def readString : JsString → Option (JsString × JsString)
  | [] => none
  | u :: us =>
    if u = unit '"' then some ([], us)
    else if u = unit '\\' then
      match us with
      | [] => none
      | e :: rest =>
        if e = unit 'u' then
          match rest with
          | a :: b :: c :: d :: rest => do
            let n := (← hexDigit? a) * 4096 + (← hexDigit? b) * 256 + (← hexDigit? c) * 16 +
              (← hexDigit? d)
            let (s, rest) ← readString rest
            return (UInt16.ofNat n :: s, rest)
          | _ => none
        else do
          let e ← simpleEscape? e
          let (s, rest) ← readString rest
          return (e :: s, rest)
    else if u.toNat < 0x20 then none
    else do
      let (s, rest) ← readString us
      return (u :: s, rest)

/-- The number at the front of a text, and what follows it. -/
def readNumber (numbers : NumberText ν) (s : JsString) : Option (JsValue ν × JsString) :=
  let numeral := s.takeWhile isNumeralUnit
  if isNumeral numeral then some (.num (numbers.ofText numeral), s.dropWhile isNumeralUnit)
  else none

/-- The text after a word at its front. -/
def readWord (word : String) (value : JsValue ν) (s : JsString) : Option (JsValue ν × JsString) :=
  if text word <+: s then some (value, s.drop (text word).length) else none

mutual

/-- The value at the front of a text, and what follows it. -/
def readValue (numbers : NumberText ν) : ℕ → JsString → Option (JsValue ν × JsString)
  | 0, _ => none
  | _ + 1, [] => none
  | fuel + 1, u :: us =>
    if u = unit '{' then
      match skipSpace us with
      | v :: vs => if v = unit '}' then some (.obj [], vs) else readFields numbers fuel [] (v :: vs)
      | [] => none
    else if u = unit '[' then
      match skipSpace us with
      | v :: vs => if v = unit ']' then some (.arr [], vs) else readItems numbers fuel [] (v :: vs)
      | [] => none
    else if u = unit '"' then (readString us).map fun (s, rest) => (.str s, rest)
    else if u = unit 't' then readWord "true" (.bool true) (u :: us)
    else if u = unit 'f' then readWord "false" (.bool false) (u :: us)
    else if u = unit 'n' then readWord "null" .null (u :: us)
    else readNumber numbers (u :: us)

/-- The items of an array from one of them on, and what follows the array. -/
def readItems (numbers : NumberText ν) :
    ℕ → List (JsValue ν) → JsString → Option (JsValue ν × JsString)
  | 0, _, _ => none
  | fuel + 1, items, s => do
    let (value, rest) ← readValue numbers fuel (skipSpace s)
    match skipSpace rest with
    | u :: us =>
      if u = unit ']' then some (.arr (items ++ [value]), us)
      else if u = unit ',' then readItems numbers fuel (items ++ [value]) us
      else none
    | [] => none

/-- The fields of an object from one of them on, and what follows the object. -/
def readFields (numbers : NumberText ν) :
    ℕ → List (JsString × JsValue ν) → JsString → Option (JsValue ν × JsString)
  | 0, _, _ => none
  | fuel + 1, fields, s =>
    match skipSpace s with
    | q :: us =>
      if q = unit '"' then do
        let (key, rest) ← readString us
        match skipSpace rest with
        | c :: rest =>
          if c = unit ':' then do
            let (value, rest) ← readValue numbers fuel (skipSpace rest)
            match skipSpace rest with
            | v :: vs =>
              if v = unit '}' then some (.obj (setProperty fields key value), vs)
              else if v = unit ',' then readFields numbers fuel (setProperty fields key value) vs
              else none
            | [] => none
          else none
        | [] => none
      else none
    | [] => none

end

/-- `JSON.parse`: the text is one value with white space around it, else a `SyntaxError`. -/
def parse (numbers : NumberText ν) (s : JsString) : Option (JsValue ν) :=
  match readValue numbers (s.length + 1) (skipSpace s) with
  | some (value, rest) => if skipSpace rest = [] then some value else none
  | none => none

/-- A hexadecimal digit in lower case, as escapes are written. -/
def hexUnit (d : ℕ) : UInt16 := UInt16.ofNat (if d < 10 then 48 + d else 87 + d)

/-- `UnicodeEscape`: the escape of a code unit with its four hexadecimal digits. -/
def unicodeEscape (u : UInt16) : JsString :=
  [unit '\\', unit 'u', hexUnit (u.toNat / 4096), hexUnit (u.toNat / 256 % 16),
    hexUnit (u.toNat / 16 % 16), hexUnit (u.toNat % 16)]

/-- How a code unit that is not part of a surrogate pair is written in a string. -/
def quoteUnit (u : UInt16) : JsString :=
  if u = 8 then text "\\b"
  else if u = 9 then text "\\t"
  else if u = 10 then text "\\n"
  else if u = 12 then text "\\f"
  else if u = 13 then text "\\r"
  else if u = unit '"' then text "\\\""
  else if u = unit '\\' then text "\\\\"
  else if u.toNat < 0x20 ∨ (0xD800 ≤ u.toNat ∧ u.toNat < 0xE000) then unicodeEscape u
  else [u]

/-- The code units of a string between its quotation marks; surrogate pairs stay as they are. -/
def quoteUnits : JsString → JsString
  | [] => []
  | [u] => quoteUnit u
  | u :: v :: us =>
    if u.toNat / 0x400 = 0x36 ∧ v.toNat / 0x400 = 0x37 then u :: v :: quoteUnits us
    else quoteUnit u ++ quoteUnits (v :: us)

/-- `QuoteJSONString`: the string between quotation marks, with its escapes. -/
def quote (s : JsString) : JsString := unit '"' :: (quoteUnits s ++ [unit '"'])

/-- The line break and indentation inside an array or an object, if there is a gap. -/
def lineBreak (gap indent : JsString) : JsString := if gap = [] then [] else unit '\n' :: indent

mutual

/-- `SerializeJSONProperty` at a depth of indentation, with the gap that one more level adds. -/
def serialize (numbers : NumberText ν) (gap indent : JsString) : JsValue ν → JsString
  | .null => text "null"
  | .bool true => text "true"
  | .bool false => text "false"
  | .num n => if numbers.isFinite n then numbers.toText n else text "null"
  | .str s => quote s
  | .arr [] => text "[]"
  | .arr (item :: items) =>
    unit '[' :: (lineBreak gap (indent ++ gap) ++ serialize numbers gap (indent ++ gap) item ++
      serializeItems numbers gap (indent ++ gap) items ++ lineBreak gap indent ++ [unit ']'])
  | .obj [] => text "{}"
  | .obj ((key, value) :: fields) =>
    unit '{' :: (lineBreak gap (indent ++ gap) ++ quote key ++
      unit ':' :: (if gap = [] then [] else [unit ' ']) ++
      serialize numbers gap (indent ++ gap) value ++
      serializeFields numbers gap (indent ++ gap) fields ++ lineBreak gap indent ++ [unit '}'])

/-- The items of an array after the first one. -/
def serializeItems (numbers : NumberText ν) (gap indent : JsString) : List (JsValue ν) → JsString
  | [] => []
  | item :: items =>
    unit ',' :: (lineBreak gap indent ++ serialize numbers gap indent item ++
      serializeItems numbers gap indent items)

/-- The fields of an object after the first one. -/
def serializeFields (numbers : NumberText ν) (gap indent : JsString) :
    List (JsString × JsValue ν) → JsString
  | [] => []
  | (key, value) :: fields =>
    unit ',' :: (lineBreak gap indent ++ quote key ++
      unit ':' :: (if gap = [] then [] else [unit ' ']) ++ serialize numbers gap indent value ++
      serializeFields numbers gap indent fields)

end

/-- `JSON.stringify(value, null, gap)`, the gap as the text of so many spaces. -/
def stringify (numbers : NumberText ν) (gap : ℕ) (value : JsValue ν) : JsString :=
  serialize numbers (List.replicate (min gap 10) (unit ' ')) [] value

end Js

end CdkSystem
