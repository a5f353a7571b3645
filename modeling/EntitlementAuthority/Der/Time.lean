import EntitlementAuthority.Der.Element
import EntitlementAuthority.Time.Rfc3339

/-!
# Times in DER

Times have two digits for the year from 1950 to 2049 and four otherwise. They are written in
Universal Time; one with two digits for the year can also be read by a clock that is ahead of it
or behind.

* `Der.time` — an instant as an element, without its fraction.
* `Der.ClockTime` — what a time says.
* `Der.takeTime?` — takes a time off the front of some bytes.
-/

namespace EntitlementAuthority.Der

/-! ### Writing -/

/-- Whether a year is written with two digits. -/
def isShortYear (year : Int) : Bool :=
  1950 ≤ year && year < 2050

/-- Month, day and time of day, up to the mark of Universal Time. -/
def timeDigits (c : Instant.Civil) : String :=
  Time.padded 2 c.date.month ++ Time.padded 2 c.date.day ++ Time.padded 2 c.hour
    ++ Time.padded 2 c.minute ++ Time.padded 2 c.second ++ "Z"

/-- The four digits of a year. No certificate names a year before 0, where a sign is in front. -/
def longYear (year : Int) : String :=
  (if year < 0 then "-" else "") ++ Time.padded 4 year.natAbs

/-- An instant as an element. -/
def time (t : Instant) : Bytes :=
  let c := (Instant.mk t.seconds 0).civil
  let year := c.date.year
  if isShortYear year then
    element utcTimeTag (Bytes.ofText (Time.padded 2 (year % 100).toNat ++ timeDigits c))
  else
    element generalizedTimeTag (Bytes.ofText (longYear year ++ timeDigits c))

/-! ### Reading -/

/-- An instant, and by how many minutes the clock that it was read from is ahead of Universal
Time. -/
structure ClockTime where
  instant : Instant
  ahead : Int
deriving DecidableEq, Repr

/-- What a clock shows, if there is such a date and time. -/
def clockTime? (year : Int) (month day hour minute second : Nat) (ahead : Int) :
    Option ClockTime :=
  let date : Time.Date := ⟨year, month, day⟩
  if date.isValid ∧ hour < 24 ∧ minute < 60 ∧ second < 60 then
    some ⟨Instant.ofCivil ⟨date, hour, minute, second, 0⟩ (60 * ahead), ahead⟩
  else none

/-- The year that two digits stand for. -/
def expandYear (n : Nat) : Int :=
  if n < 50 then 2000 + n else 1900 + n

/-- The most hours that a clock can be ahead or behind. -/
def offsetLimit : Nat := 25

/-- By how many minutes a clock is ahead. A sign counts for the minutes only if there are hours. -/
def ahead? : List Char → Option Int
  | ['Z'] => some 0
  | sign :: cs => do
    let (hours, cs) ← Instant.takeDigits? 2 cs
    let (minutes, cs) ← Instant.takeDigits? 2 cs
    let minutes : Int := 60 * hours + minutes
    if hours ≤ offsetLimit ∧ minutes < 60 * hours + 60 ∧ cs = [] then
      if sign = '+' then some minutes
      else if sign = '-' then some (if hours = 0 then minutes else -minutes)
      else none
    else none
  | [] => none

/-- Takes the seconds of a time, which are zero if one character is left. Of two that are no
digits nothing is read. -/
def takeSeconds? : List Char → Option (Nat × List Char)
  | [] => none
  | [c] => some (0, [c])
  | c :: d :: cs => some (((Instant.takeDigits? 2 [c, d]).map (·.1)).getD 0, cs)

/-- A time with two digits for the year. -/
def shortTime? (cs : List Char) : Option ClockTime := do
  let (year, cs) ← Instant.takeDigits? 2 cs
  let (month, cs) ← Instant.takeDigits? 2 cs
  let (day, cs) ← Instant.takeDigits? 2 cs
  let (hour, cs) ← Instant.takeDigits? 2 cs
  let (minute, cs) ← Instant.takeDigits? 2 cs
  let (second, cs) ← takeSeconds? cs
  clockTime? (expandYear year) month day hour minute second (← ahead? cs)

/-- Takes two digits, or nothing and zero if one character is left. -/
def takePairOrLast? : List Char → Option (Nat × List Char)
  | [] => none
  | [c] => some (0, [c])
  | cs => Instant.takeDigits? 2 cs

/-- How many digits a fraction may have. -/
def fractionDigits : Nat := 3

/-- Whether all that is left is a fraction, which does not count, and the mark of Universal
Time. -/
def isTimeEnd : List Char → Bool
  | ['Z'] => true
  | '.' :: cs =>
    (cs.takeWhile Char.isDigit).length ≤ fractionDigits && cs.dropWhile Char.isDigit == ['Z']
  | _ => false

/-- A time with four digits for the year. -/
def longTime? (cs : List Char) : Option ClockTime := do
  let (year, cs) ← Instant.takeDigits? 4 cs
  let (month, cs) ← Instant.takeDigits? 2 cs
  let (day, cs) ← Instant.takeDigits? 2 cs
  let (hour, cs) ← Instant.takeDigits? 2 cs
  let (minute, cs) ← takePairOrLast? cs
  let (second, cs) ← takePairOrLast? cs
  if isTimeEnd cs then clockTime? year month day hour minute second 0 else none

/-- The characters of bytes without control characters. -/
def visibleChars? (bytes : Bytes) : Option (List Char) :=
  if bytes.all fun b => 0x20 ≤ b && b ≤ 0x7F then some (bytes.map fun b => Char.ofNat b.toNat)
  else none

/-- Takes a time. -/
def takeTime? : Reader ClockTime := fun input => do
  let (e, rest) ← next? input
  let cs ← visibleChars? e.contents
  if e.isNumbered utcTimeTag then (shortTime? cs).map fun t => (t, rest)
  else if e.isNumbered generalizedTimeTag then (longTime? cs).map fun t => (t, rest)
  else none

end EntitlementAuthority.Der
