import CdkSystem.Lib.RowLock

/-!
# Parsing times

`time.Parse` of the layouts `time.RFC3339` and `2006-01-02 15:04:05`. An instant is the number of
microseconds since 1970, which is how the database keeps it.

The reader goes through the layout and the text side by side as `time.Parse` does, with the numbers
of days in the months and the limits of hours, minutes and seconds checked when they have been read.
A fraction of a second may follow the seconds although the layout has none.
-/

namespace CdkSystem.GoTime

open RowLock (Time)

/-- The value of a digit, as the difference from the character of zero. -/
def digit (c : Char) : ℕ := c.toNat - '0'.toNat

/-- `getnum`: a number of two digits, or of one when that is allowed. -/
def getnum (fixed : Bool) : List Char → Option (ℕ × List Char)
  | [] => none
  | a :: cs =>
    if a.isDigit then
      match cs with
      | b :: rest =>
        if b.isDigit then some (10 * digit a + digit b, rest)
        else if fixed then none
        else some (digit a, b :: rest)
      | [] => if fixed then none else some (digit a, [])
    else none

/-- A year of four digits at the head of a text, with what follows it. -/
def longYear : List Char → Option (ℕ × List Char)
  | a :: b :: c :: d :: rest =>
    if a.isDigit ∧ b.isDigit ∧ c.isDigit ∧ d.isDigit then
      some (1000 * digit a + 100 * digit b + 10 * digit c + digit d, rest)
    else none
  | _ => none

/-- A character of the layout that is not part of an element. -/
def skip (c : Char) : List Char → Option (List Char)
  | [] => none
  | d :: rest => if d = c then some rest else none

/-- A space of the layout: any number of spaces, or the end of the value. -/
def skipSpace : List Char → Option (List Char)
  | [] => some []
  | d :: rest => if d = ' ' then some (rest.dropWhile (· = ' ')) else none

/-- A number within bounds; with another one the text is no time. -/
def within (lo hi : ℕ) (r : Option (ℕ × List Char)) : Option (ℕ × List Char) :=
  r.filter fun x => lo ≤ x.1 && x.1 ≤ hi

/-- A fraction of a second behind the seconds, in nanoseconds, although the layout has none. At most
nine digits count. -/
def fraction : List Char → ℕ × List Char
  | p :: d :: rest =>
    if (p = '.' ∨ p = ',') ∧ d.isDigit then
      let digits := ((d :: rest).takeWhile Char.isDigit).take 9
      (digits.foldl (fun n c => 10 * n + digit c) 0 * 10 ^ (9 - digits.length),
        (d :: rest).dropWhile Char.isDigit)
    else (0, p :: d :: rest)
  | cs => (0, cs)

/-- A date and a time of the day. -/
structure Civil where
  year : ℕ
  month : ℕ
  day : ℕ
  hour : ℕ
  min : ℕ
  sec : ℕ
  nsec : ℕ

/-- `isLeap` of package `time`: the rule of the Gregorian calendar. -/
def isLeap (year : ℕ) : Bool := year % 4 = 0 && (year % 100 ≠ 0 || year % 400 = 0)

/-- `daysIn` of package `time`: the number of days of a month in a year. -/
def daysIn (month year : ℕ) : ℕ :=
  if month = 2 then (if isLeap year then 29 else 28)
  else if month ∈ [4, 6, 9, 11] then 30
  else 31

/-- The part of the two layouts up to the seconds, which differs in what stands before the hour. -/
def parseCivil (sep : List Char → Option (List Char)) (value : List Char) :
    Option (Civil × List Char) := do
  let (year, value) ← longYear value
  let (month, value) ← within 1 12 (getnum true (← skip '-' value))
  let (day, value) ← within 1 (daysIn month year) (getnum true (← skip '-' value))
  let (hour, value) ← within 0 23 (getnum false (← sep value))
  let (min, value) ← within 0 59 (getnum true (← skip ':' value))
  let (sec, value) ← within 0 59 (getnum true (← skip ':' value))
  let (nsec, value) := fraction value
  return (⟨year, month, day, hour, min, sec, nsec⟩, value)

/-- A zone of the layout `Z07:00`: the seconds east of UTC. -/
def zone : List Char → Option (ℤ × List Char)
  | 'Z' :: rest => some (0, rest)
  | sign :: a :: b :: colon :: c :: d :: rest =>
    if colon ≠ ':' then none
    else do
      let (hr, _) ← within 0 24 (getnum true [a, b])
      let (mm, _) ← within 0 60 (getnum true [c, d])
      let offset : ℤ := (hr * 60 + mm) * 60
      if sign = '+' then return (offset, rest)
      else if sign = '-' then return (-offset, rest)
      else none
  | _ => none

/-- The days of a year before a month. -/
def daysBefore (month year : ℕ) : ℕ :=
  [0, 31, 59, 90, 120, 151, 181, 212, 243, 273, 304, 334].getD (month - 1) 0 +
    if isLeap year ∧ 2 < month then 1 else 0

/-- The days from 1970 to a day. -/
def days (c : Civil) : ℤ :=
  (c.year * 365 + (c.year + 3) / 4 - (c.year + 99) / 100 + (c.year + 399) / 400 : ℕ) - 719528 +
    daysBefore c.month c.year + (c.day - 1)

/-- The instant of a date and time in UTC. -/
def instant (c : Civil) : Time :=
  (((days c * 24 + c.hour) * 60 + c.min) * 60 + c.sec) * 1000000 + c.nsec / 1000

/-- `time.Parse(time.RFC3339, value)`: a date, a time of the day and a zone; none is an error. -/
def parseRFC3339 (value : String) : Option Time := do
  let (c, rest) ← parseCivil (skip 'T') value.toList
  let (offset, rest) ← zone rest
  if rest = [] then return instant c - offset * 1000000 else none

/-- `time.Parse("2006-01-02 15:04:05", value)`: a date and a time of the day in UTC; none is an
error. -/
def parseDateTime (value : String) : Option Time := do
  let (c, rest) ← parseCivil skipSpace value.toList
  if rest = [] then return instant c else none

end CdkSystem.GoTime
