import EntitlementAuthority.Text.Integer
import EntitlementAuthority.Time.Instant

/-!
# Instants as text

* `Instant.rfc3339Seconds` — RFC 3339 in Universal Time, whole seconds.
* `Instant.rfc3339` — the same with the fraction, if there is one.
* `Instant.spelled` — the form used in messages: a space between day and time, `UTC` behind.
* `Instant.ofRfc3339?` — reads RFC 3339 text with any offset.

Years from 0 to 9999 have four digits; all others have a sign in front.
-/

namespace EntitlementAuthority

namespace Time

/-- A number with at least `width` digits. -/
def padded (width n : Nat) : String :=
  let digits := Nat.toDigits 10 n
  String.ofList (List.replicate (width - digits.length) '0' ++ digits)

/-- A year: four digits, a sign in front outside 0 to 9999. -/
def yearText (year : Int) : String :=
  if 0 ≤ year ∧ year ≤ 9999 then padded 4 year.toNat
  else (if year < 0 then "-" else "+") ++ padded 4 year.natAbs

/-- A date with dashes. -/
def Date.text (d : Date) : String :=
  yearText d.year ++ "-" ++ padded 2 d.month ++ "-" ++ padded 2 d.day

/-- A time of day with colons. -/
def timeText (c : Instant.Civil) : String :=
  padded 2 c.hour ++ ":" ++ padded 2 c.minute ++ ":" ++ padded 2 c.second

/-- A fraction of a second in three, six or nine digits; nothing for a whole second. -/
def fractionText (nanos : Nat) : String :=
  if nanos = 0 then ""
  else if nanos % 1000000 = 0 then "." ++ padded 3 (nanos / 1000000)
  else if nanos % 1000 = 0 then "." ++ padded 6 (nanos / 1000)
  else "." ++ padded 9 nanos

end Time

namespace Instant

/-- RFC 3339 in Universal Time, the fraction left out. -/
def rfc3339Seconds (a : Instant) : String :=
  a.civil.date.text ++ "T" ++ Time.timeText a.civil ++ "Z"

/-- RFC 3339 in Universal Time. -/
def rfc3339 (a : Instant) : String :=
  a.civil.date.text ++ "T" ++ Time.timeText a.civil ++ Time.fractionText a.civil.nanos ++ "Z"

/-- The form used in messages. -/
def spelled (a : Instant) : String :=
  a.civil.date.text ++ " " ++ Time.timeText a.civil ++ Time.fractionText a.civil.nanos ++ " UTC"

/-- Reads exactly `count` digits. -/
def takeDigits? (count : Nat) (cs : List Char) : Option (Nat × List Char) := do
  let digits := cs.take count
  if digits.length = count then
    let n ← Text.digitsValue? 0 digits
    some (n, cs.drop count)
  else none

/-- Takes one given character off the front. -/
def takeChar? (c : Char) : List Char → Option (List Char)
  | [] => none
  | d :: cs => if d = c then some cs else none

/-- A year of at least four digits with an optional sign, up to the dash behind it. -/
def takeYear? (cs : List Char) : Option (Int × List Char) := do
  let (negative, cs) := match cs with
    | '-' :: rest => (true, rest)
    | '+' :: rest => (false, rest)
    | cs => (false, cs)
  let digits := cs.takeWhile Char.isDigit
  if digits.length < 4 then none
  else
    let n ← Text.digitsValue? 0 digits
    some (if negative then -(n : Int) else n, cs.dropWhile Char.isDigit)

/-- The digits after a decimal point as nanoseconds. -/
def takeFraction? : List Char → Option (Nat × List Char)
  | '.' :: cs => do
    let digits := cs.takeWhile Char.isDigit
    if digits.isEmpty ∨ 9 < digits.length then none
    else
      let n ← Text.digitsValue? 0 digits
      some (n * Nat.pow 10 (9 - digits.length), cs.dropWhile Char.isDigit)
  | cs => some (0, cs)

/-- The offset from Universal Time in seconds, at the end of the text. -/
def readOffset? : List Char → Option Int
  | ['Z'] => some 0
  | ['z'] => some 0
  | sign :: cs => do
    let (hours, cs) ← takeDigits? 2 cs
    let cs ← takeChar? ':' cs
    let (minutes, cs) ← takeDigits? 2 cs
    let offset : Int := hours * 3600 + minutes * 60
    if !cs.isEmpty then none
    else if sign = '+' then some offset
    else if sign = '-' then some (-offset)
    else none
  | [] => none

/-- Reads RFC 3339 text. -/
def ofRfc3339? (s : String) : Option Instant := do
  let (year, cs) ← takeYear? s.toList
  let cs ← takeChar? '-' cs
  let (month, cs) ← takeDigits? 2 cs
  let cs ← takeChar? '-' cs
  let (day, cs) ← takeDigits? 2 cs
  let cs ← (takeChar? 'T' cs).or ((takeChar? 't' cs).or (takeChar? ' ' cs))
  let (hour, cs) ← takeDigits? 2 cs
  let cs ← takeChar? ':' cs
  let (minute, cs) ← takeDigits? 2 cs
  let cs ← takeChar? ':' cs
  let (second, cs) ← takeDigits? 2 cs
  let (nanos, cs) ← takeFraction? cs
  let offset ← readOffset? cs
  let date : Time.Date := ⟨year, month, day⟩
  if date.isValid ∧ hour < 24 ∧ minute < 60 ∧ second ≤ 60 then
    some (ofCivil ⟨date, hour, minute, second, nanos⟩ offset)
  else none

end Instant

end EntitlementAuthority
