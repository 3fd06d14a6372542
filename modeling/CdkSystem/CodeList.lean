import CdkSystem.BatchRedeem

/-!
# The page's list of codes

`parseCdkList` of `web/src/pages/redeem.tsx`, which reads the codes from what a user pastes, and the
text from which `handleSubmit` lets the user try again.

A code of the page is what is left after everything but letters and digits was removed and the rest
was put into upper case. The list keeps the first of several equal codes. Characters are
JavaScript's code points where a loop goes over a string, and the expression that splits the text is
the one of the source.
-/

namespace CdkSystem

/-- `normalizeCdk`: a code without the white space around it, in capital letters. -/
def normalizeCdk (value : String) : String :=
  toUpper (String.ofList (value.toList.filter Char.isAlphanum))

/-- The characters of `/[\s,，;；]/`, at which the page splits the text of a list. -/
def isCdkSeparator (c : Char) : Bool :=
  (isSpace c && c ≠ '\u0085') || c = '\uFEFF' || c ∈ [',', '，', ';', '；']

/-- `value.split` at runs of characters that satisfy `p`. -/
def splitRuns (p : Char → Bool) : List Char → List (List Char)
  | [] => [[]]
  | c :: cs =>
    if p c then
      if cs.head?.any p then splitRuns p cs else [] :: splitRuns p cs
    else
      match splitRuns p cs with
      | [] => [[c]]
      | part :: parts => (c :: part) :: parts

/-- The loop of `parseCdkList`, which keeps the parts that are not empty and were not seen before.
-/
def parseParts (seen codes : List String) : List String → List String
  | [] => codes
  | part :: parts =>
    let code := normalizeCdk part
    if code = "" ∨ code ∈ seen then parseParts seen codes parts
    else parseParts (code :: seen) (codes ++ [code]) parts

/-- `parseCdkList`: the normalized codes of a text, each of them once, in the order of the text. -/
def parseCdkList (value : String) : List String :=
  parseParts [] [] ((splitRuns isCdkSeparator value.toList).map String.ofList)

/-- What `handleSubmit` makes the input of the codes after a batch was redeemed: the codes of the
items that failed, joined by newlines. -/
def codeInputAfter (data : BatchRedeemResponse) : String :=
  if data.failed = 0 then ""
  else
    let failedCodes := (data.results.filter fun item => !item.ok).map BatchRedeemItem.code
    "\n".intercalate failedCodes

/-- What is before a separator is a part, when no separator follows on it. -/
theorem splitRuns_part {p : Char → Bool} {part rest : List Char} {s : Char}
    (hpart : ∀ c ∈ part, p c = false) (hs : p s = true) (hrest : rest.head?.any p = false) :
    splitRuns p (part ++ s :: rest) = part :: splitRuns p rest := by
  induction part with
  | nil => simp [splitRuns, hs, hrest]
  | cons c part ih =>
    have hc : p c = false := hpart c (by simp)
    rw [List.cons_append, splitRuns, ih fun c hc => hpart c (by simp [hc])]
    simp [hc]

/-- The dash, digits and upper-case letters are no separators. -/
theorem isCdkSeparator_eq_false {c : Char}
    (h : c.toNat = 45 ∨ (48 ≤ c.toNat ∧ c.toNat ≤ 57) ∨ (65 ≤ c.toNat ∧ c.toNat ≤ 90)) :
    isCdkSeparator c = false := by
  have hne : ∀ d : Char, d.toNat ∈ [0xFEFF, 44, 0xFF0C, 59, 0xFF1B] → c ≠ d := by
    rintro d hd rfl
    simp only [List.mem_cons, List.not_mem_nil, or_false] at hd
    omega
  have hspace : isSpace c = false := by
    simp only [isSpace, List.mem_cons, List.not_mem_nil, or_false, Bool.or_eq_false_iff,
      decide_eq_false_iff_not, Bool.and_eq_false_iff]
    omega
  simp [isCdkSeparator, hspace, hne '\uFEFF' (by decide), hne ',' (by decide), hne '，' (by decide),
    hne ';' (by decide), hne '；' (by decide)]

end CdkSystem
